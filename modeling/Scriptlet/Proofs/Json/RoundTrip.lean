import Scriptlet.Proofs.Json.Scalars

/-! JSON text is read back as what was written, with its numbers read one by one. -/
namespace Scriptlet.Json

mutual

/-- What the text of a value is read as. Only numbers may change, or prevent the reading. -/
def reread : Json → Option Json
  | null => some null
  | boolean b => some (boolean b)
  | number d => (scalar 0 (d.render numberLayout).toList).map (·.1)
  | string s => some (string s)
  | array js => (rereadItems js).map array
  | object fs => (rereadFields fs).map object

def rereadItems : List Json → Option (List Json)
  | [] => some []
  | j :: js => do
    let j ← j.reread
    let js ← rereadItems js
    some (j :: js)

def rereadFields : List (String × Json) → Option (List (String × Json))
  | [] => some []
  | (k, j) :: fs => do
    let j ← j.reread
    let fs ← rereadFields fs
    some ((k, j) :: fs)

end

def itemsText (level : Nat) : List Json → List Char
  | [] => []
  | j :: js => (j.pretty level).toList ++ (prettyItems level js).toList

def fieldsText (level : Nat) : List (String × Json) → List Char
  | [] => []
  | (k, j) :: fs =>
    (quoted k).toList ++ ':' :: ' ' :: ((j.pretty level).toList ++ (prettyFields level fs).toList)

section Blanks
variable {gap cs : List Char} {c : Char}

theorem skipBlanks_append (h : ∀ c ∈ gap, isBlank c = true) (cs : List Char) :
    skipBlanks (gap ++ cs) = skipBlanks cs := by
  unfold skipBlanks
  rw [List.dropWhile_append_of_pos h]

theorem skipBlanks_cons (h : isBlank c = false) (cs : List Char) : skipBlanks (c :: cs) = c :: cs := by
  simp [skipBlanks, h]

theorem newline_blank (level : Nat) : ∀ c ∈ (newline level).toList, isBlank c = true := by
  intro c hc
  simp only [newline, String.toList_append, String.toList_ofList, List.mem_append,
    List.mem_replicate] at hc
  rcases hc with hc | ⟨-, rfl⟩
  · obtain rfl : c = '\n' := by simpa using hc
    rfl
  · rfl

theorem behind_newline (level : Nat) (cs : List Char) : Behind ((newline level).toList ++ cs) := by
  intro c hc
  obtain rfl : '\n' = c := by simpa [newline] using hc
  exact .inr rfl

end Blanks

theorem render_begins (d : Decimal) : ∃ c cs, (d.render numberLayout).toList = c :: cs ∧
    ∀ e : Char, e ≠ '-' → e.isDigit = false → c ≠ e := by
  obtain ⟨n, hn⟩ := exists_numeral d
  obtain ⟨c, cs, hcs, hc⟩ := n.begins
  by_cases hminus : d.negative = true
  · refine ⟨'-', n.text, by simp [hn, hminus], ?_⟩
    intro e he _
    exact he.symm
  · refine ⟨c, cs, by simp [hn, hminus, hcs], ?_⟩
    rintro e - he rfl
    rw [hc] at he
    cases he

/-- The first character of a value is neither a blank nor a closing bracket. -/
theorem pretty_begins (j : Json) (level : Nat) :
    ∃ c cs, (j.pretty level).toList = c :: cs ∧ isBlank c = false ∧ c ≠ ']' ∧ c ≠ '\x7d' := by
  suffices hhead : ∃ c, (j.pretty level).toList.head? = some c ∧ isBlank c = false ∧ c ≠ ']' ∧
      c ≠ '\x7d' by
    obtain ⟨c, hc, hrest⟩ := hhead
    obtain ⟨cs, hcs⟩ := List.head?_eq_some_iff.mp hc
    exact ⟨c, cs, hcs, hrest⟩
  cases j with
  | null => exact ⟨'n', by simp [pretty], by decide⟩
  | boolean b =>
    cases b with
    | false => exact ⟨'f', by simp [pretty], by decide⟩
    | true => exact ⟨'t', by simp [pretty], by decide⟩
  | number d =>
    obtain ⟨c, cs, hcs, hne⟩ := render_begins d
    have hblank : isBlank c = false := by
      simp [isBlank, hne ' ' (by decide) rfl, hne '\n' (by decide) rfl, hne '\t' (by decide) rfl,
        hne '\r' (by decide) rfl]
    exact ⟨c, by rw [pretty, hcs]; rfl, hblank, hne ']' (by decide) rfl, hne '\x7d' (by decide) rfl⟩
  | string s => exact ⟨'"', by rw [pretty, toList_quoted]; rfl, by decide⟩
  | array js => cases js <;> exact ⟨'[', by simp [pretty], by decide⟩
  | object fs => rcases fs with _ | ⟨⟨k, j⟩, fs⟩ <;> exact ⟨'\x7b', by simp [pretty], by decide⟩

theorem skipBlanks_pretty (j : Json) (level : Nat) (cs : List Char) :
    skipBlanks ((j.pretty level).toList ++ cs) = (j.pretty level).toList ++ cs := by
  obtain ⟨c, ds, hds, hblank, -⟩ := j.pretty_begins level
  rw [hds, List.cons_append, skipBlanks_cons hblank]

theorem toList_prettyItems (j : Json) (js : List Json) (level : Nat) (cs : List Char) :
    (prettyItems level (j :: js)).toList ++ cs =
      ',' :: ((newline level).toList ++ (itemsText level (j :: js) ++ cs)) := by
  simp [prettyItems, itemsText]

theorem toList_prettyFields (f : String × Json) (fs : List (String × Json)) (level : Nat)
    (cs : List Char) :
    (prettyFields level (f :: fs)).toList ++ cs =
      ',' :: ((newline level).toList ++ (fieldsText level (f :: fs) ++ cs)) := by
  simp [prettyFields, fieldsText]

theorem behind_prettyItems (js : List Json) (level up : Nat) (cs : List Char) :
    Behind ((prettyItems level js).toList ++ ((newline up).toList ++ cs)) := by
  cases js with
  | nil => simpa [prettyItems] using behind_newline up cs
  | cons j js =>
    intro c hc
    rw [toList_prettyItems] at hc
    exact .inl (Option.some.inj hc).symm

theorem behind_prettyFields (fs : List (String × Json)) (level up : Nat) (cs : List Char) :
    Behind ((prettyFields level fs).toList ++ ((newline up).toList ++ cs)) := by
  cases fs with
  | nil => simpa [prettyFields] using behind_newline up cs
  | cons f fs =>
    intro c hc
    rw [toList_prettyFields] at hc
    exact .inl (Option.some.inj hc).symm

theorem value_scalar {cs : List Char} (h : ∀ c ∈ cs.head?, c ≠ '[' ∧ c ≠ '\x7b') (limit depth : Nat) :
    value limit depth cs = scalar limit cs := by
  cases depth with
  | zero => rfl
  | succ depth =>
    unfold value
    split
    · exact absurd rfl (h _ rfl).1
    · exact absurd rfl (h _ rfl).2
    · rfl

theorem toList_array (j : Json) (js : List Json) (level : Nat) (rest : List Char) :
    (pretty level (array (j :: js))).toList ++ rest = '[' :: ((newline (level + 1)).toList ++
      (itemsText (level + 1) (j :: js) ++ ((newline level).toList ++ ']' :: rest))) := by
  simp [pretty, itemsText]

theorem toList_object (f : String × Json) (fs : List (String × Json)) (level : Nat)
    (rest : List Char) :
    (pretty level (object (f :: fs))).toList ++ rest = '\x7b' :: ((newline (level + 1)).toList ++
      (fieldsText (level + 1) (f :: fs) ++ ((newline level).toList ++ '\x7d' :: rest))) := by
  simp [pretty, fieldsText]

/-- The text of a value is read as it should be, at every level and before all that may stand behind
it. -/
def Rereads (limit depth : Nat) (j : Json) : Prop :=
  ∀ (level : Nat) (rest : List Char), ((j.pretty level).toList ++ rest).length < limit →
    Behind rest →
    value limit depth ((j.pretty level).toList ++ rest) = j.reread.map fun j' => (j', rest)

section Members
variable {limit depth level up n : Nat} {rest : List Char}

theorem itemsRest_pretty {items : List Json} (gap : List Char) (h : ∀ j ∈ items, Rereads limit depth j)
    (hne : items ≠ []) (hgap : ∀ c ∈ gap, isBlank c = true)
    (hlimit : (itemsText level items ++ ((newline up).toList ++ ']' :: rest)).length < limit)
    (hn : (itemsText level items ++ ((newline up).toList ++ ']' :: rest)).length < n) :
    itemsRest (value limit depth) n
        (gap ++ (itemsText level items ++ ((newline up).toList ++ ']' :: rest))) =
      (rereadItems items).map fun js => (js, rest) := by
  induction items generalizing n gap with
  | nil => exact absurd rfl hne
  | cons j js ih =>
    obtain ⟨n, rfl⟩ : ∃ k, n = k + 1 := ⟨n - 1, by omega⟩
    rw [itemsText, List.append_assoc] at hlimit hn ⊢
    have hvalue := h j (by simp) level _ hlimit (behind_prettyItems js level up _)
    rw [itemsRest, skipBlanks_append hgap, skipBlanks_pretty, hvalue, rereadItems]
    cases hj : j.reread with
    | none => rfl
    | some j' =>
      simp only [Option.map_some, Option.bind_eq_bind, Option.bind_some]
      cases js with
      | nil =>
        rw [prettyItems, String.toList_empty, List.nil_append, skipBlanks_append (newline_blank up),
          skipBlanks_cons (by rfl)]
        rfl
      | cons k ks =>
        rw [toList_prettyItems] at hlimit hn ⊢
        have hrest : itemsRest (value limit depth) n ((newline level).toList ++
            (itemsText level (k :: ks) ++ ((newline up).toList ++ ']' :: rest))) =
            (rereadItems (k :: ks)).map fun js => (js, rest) := by
          apply ih _ (fun i hi => h i (by simp [hi])) (by simp) (newline_blank level)
          · simp only [List.length_append, List.length_cons] at hlimit ⊢
            omega
          · simp only [List.length_append, List.length_cons] at hn ⊢
            omega
        rw [skipBlanks_cons (by rfl)]
        simp only [hrest]
        cases rereadItems (k :: ks) <;> rfl

/-- One field, up to what stands behind it. -/
theorem fieldsRest_field {key : String} {j : Json} {gap after : List Char}
    (hj : value limit depth ((j.pretty level).toList ++ after) = j.reread.map fun j' => (j', after))
    (hgap : ∀ c ∈ gap, isBlank c = true) (hkey : key.toList.length < n) :
    fieldsRest (value limit depth) (n + 1)
        (gap ++ ((quoted key).toList ++ ':' :: ' ' :: ((j.pretty level).toList ++ after))) =
      j.reread.bind fun j' =>
        match skipBlanks after with
        | ',' :: cs => (fieldsRest (value limit depth) n cs).bind fun r => some ((key, j') :: r.1, r.2)
        | '\x7d' :: cs => some ([(key, j')], cs)
        | _ => none := by
  have hstring (cs : List Char) :
      stringRest n [] (escaped key.toList ++ '"' :: cs) = some (key, cs) := by
    rw [stringRest_escaped _ _ _ hkey]
    simp
  have hvalue : value limit depth (skipBlanks (' ' :: ((j.pretty level).toList ++ after))) =
      j.reread.map fun j' => (j', after) := by
    have hblank (cs : List Char) : skipBlanks (' ' :: cs) = skipBlanks cs := rfl
    rw [hblank, skipBlanks_pretty, hj]
  rw [fieldsRest, skipBlanks_append hgap, toList_quoted]
  simp only [List.cons_append, List.append_assoc, List.nil_append]
  rw [skipBlanks_cons (by rfl)]
  simp only [hstring, Option.bind_eq_bind, Option.bind_some]
  rw [skipBlanks_cons (by rfl)]
  simp only [hvalue]
  cases j.reread with
  | none => rfl
  | some j' => rfl

theorem fieldsRest_pretty {fields : List (String × Json)} (gap : List Char)
    (h : ∀ f ∈ fields, Rereads limit depth f.2) (hne : fields ≠ []) (hgap : ∀ c ∈ gap, isBlank c = true)
    (hlimit : (fieldsText level fields ++ ((newline up).toList ++ '\x7d' :: rest)).length < limit)
    (hn : (fieldsText level fields ++ ((newline up).toList ++ '\x7d' :: rest)).length < n) :
    fieldsRest (value limit depth) n
        (gap ++ (fieldsText level fields ++ ((newline up).toList ++ '\x7d' :: rest))) =
      (rereadFields fields).map fun fs => (fs, rest) := by
  induction fields generalizing n gap with
  | nil => exact absurd rfl hne
  | cons f fs ih =>
    obtain ⟨key, j⟩ := f
    obtain ⟨n, rfl⟩ : ∃ k, n = k + 1 := ⟨n - 1, by omega⟩
    have htext : fieldsText level ((key, j) :: fs) ++ ((newline up).toList ++ '\x7d' :: rest) =
        (quoted key).toList ++ ':' :: ' ' :: ((j.pretty level).toList ++
          ((prettyFields level fs).toList ++ ((newline up).toList ++ '\x7d' :: rest))) := by
      simp [fieldsText]
    have hkey : key.toList.length ≤ (quoted key).toList.length := by
      have hlength := length_le_escaped key.toList
      simp only [toList_quoted, List.length_cons, List.length_append]
      omega
    rw [htext] at hlimit hn ⊢
    have hj := h (key, j) (by simp) level ((prettyFields level fs).toList ++
      ((newline up).toList ++ '\x7d' :: rest)) (by
        simp only [List.length_append, List.length_cons] at hlimit ⊢
        omega) (behind_prettyFields fs level up _)
    have hshort : key.toList.length < n := by
      simp only [List.length_append, List.length_cons] at hn
      omega
    rw [fieldsRest_field hj hgap hshort, rereadFields]
    cases j.reread with
    | none => rfl
    | some j' =>
      simp only [Option.bind_eq_bind, Option.bind_some]
      cases fs with
      | nil =>
        rw [prettyFields, String.toList_empty, List.nil_append, skipBlanks_append (newline_blank up),
          skipBlanks_cons (by rfl)]
        rfl
      | cons f fs =>
        rw [toList_prettyFields] at hlimit hn ⊢
        have hrest : fieldsRest (value limit depth) n ((newline level).toList ++
            (fieldsText level (f :: fs) ++ ((newline up).toList ++ '\x7d' :: rest))) =
            (rereadFields (f :: fs)).map fun fs => (fs, rest) := by
          apply ih _ (fun i hi => h i (by simp [hi])) (by simp) (newline_blank level)
          · simp only [List.length_append, List.length_cons] at hlimit ⊢
            omega
          · simp only [List.length_append, List.length_cons] at hn ⊢
            omega
        rw [skipBlanks_cons (by rfl)]
        simp only [hrest]
        cases rereadFields (f :: fs) <;> rfl

end Members

theorem depth_le_of_mem {j : Json} {items : List Json} (h : j ∈ items) :
    j.depth ≤ depthItems items := by
  induction items with
  | nil => cases h
  | cons k ks ih =>
    rw [depthItems]
    rcases List.mem_cons.mp h with rfl | h
    · exact Nat.le_max_left _ _
    · exact Nat.le_trans (ih h) (Nat.le_max_right _ _)

theorem depth_le_of_mem_fields {f : String × Json} {fields : List (String × Json)}
    (h : f ∈ fields) : f.2.depth ≤ depthFields fields := by
  induction fields with
  | nil => cases h
  | cons g gs ih =>
    rw [depthFields]
    rcases List.mem_cons.mp h with rfl | h
    · exact Nat.le_max_left _ _
    · exact Nat.le_trans (ih h) (Nat.le_max_right _ _)

section Brackets
variable {limit depth : Nat} {cs : List Char}

theorem value_array (h : ∀ c ∈ (skipBlanks cs).head?, c ≠ ']') :
    value limit (depth + 1) ('[' :: cs) =
      (itemsRest (value limit depth) limit (skipBlanks cs)).map fun r => (array r.1, r.2) := by
  rw [value]
  split
  · next heq => exact absurd rfl (h ']' (by rw [heq]; rfl))
  · rfl

theorem value_object (h : ∀ c ∈ (skipBlanks cs).head?, c ≠ '\x7d') :
    value limit (depth + 1) ('\x7b' :: cs) =
      (fieldsRest (value limit depth) limit (skipBlanks cs)).map fun r => (object r.1, r.2) := by
  rw [value]
  split
  · next heq => exact absurd rfl (h '\x7d' (by rw [heq]; rfl))
  · rfl

end Brackets

theorem rereads_number (limit depth : Nat) (d : Decimal) : Rereads limit depth (number d) := by
  intro level rest _ hbehind
  obtain ⟨c, cs, hcs, hne⟩ := render_begins d
  have hscalar : ∀ e ∈ ((d.render numberLayout).toList ++ rest).head?, e ≠ '[' ∧ e ≠ '\x7b' := by
    intro e he
    rw [hcs] at he
    obtain rfl : c = e := Option.some.inj he
    exact ⟨hne '[' (by decide) rfl, hne '\x7b' (by decide) rfl⟩
  rw [pretty, value_scalar hscalar, scalar_render d hbehind, reread, Option.map_map]
  rfl

theorem rereads_string (limit depth : Nat) (s : String) : Rereads limit depth (string s) := by
  intro level rest hlimit _
  rw [pretty, toList_quoted] at hlimit ⊢
  simp only [List.cons_append, List.append_assoc, List.nil_append] at hlimit ⊢
  have hshort : s.toList.length < limit := by
    have hlength := length_le_escaped s.toList
    simp only [List.length_append, List.length_cons] at hlimit
    omega
  rw [value_scalar (by simp), scalar, stringRest_escaped _ _ _ hshort]
  simp [reread]

theorem Rereads.array {limit depth : Nat} {items : List Json}
    (h : ∀ j ∈ items, Rereads limit depth j) : Rereads limit (depth + 1) (.array items) := by
  intro level rest hlimit _
  cases items with
  | nil =>
    have hclose : skipBlanks (']' :: rest) = ']' :: rest := skipBlanks_cons rfl rest
    simp [pretty, value, hclose, reread, rereadItems]
  | cons j js =>
    rw [toList_array] at hlimit ⊢
    have hlength : (itemsText (level + 1) (j :: js) ++
        ((newline level).toList ++ ']' :: rest)).length < limit := by
      simp only [List.length_append, List.length_cons] at hlimit ⊢
      omega
    have hread := itemsRest_pretty [] h (by simp) (by simp) hlength hlength
    obtain ⟨c, cs, hcs, hblank, hne, -⟩ := j.pretty_begins (level + 1)
    obtain ⟨ds, hds⟩ : ∃ ds, itemsText (level + 1) (j :: js) ++
        ((newline level).toList ++ ']' :: rest) = c :: ds := ⟨_, by rw [itemsText, hcs]; rfl⟩
    rw [List.nil_append, hds] at hread
    have hskip : skipBlanks ((newline (level + 1)).toList ++ c :: ds) = c :: ds := by
      rw [skipBlanks_append (newline_blank _), skipBlanks_cons hblank]
    have hopen : ∀ e ∈ (c :: ds).head?, e ≠ ']' := by
      rintro e ⟨⟩
      exact hne
    rw [hds, value_array (by rwa [hskip]), hskip, hread, reread, Option.map_map, Option.map_map]
    rfl

theorem Rereads.object {limit depth : Nat} {fields : List (String × Json)}
    (h : ∀ f ∈ fields, Rereads limit depth f.2) : Rereads limit (depth + 1) (.object fields) := by
  intro level rest hlimit _
  cases fields with
  | nil =>
    have hclose : skipBlanks ('\x7d' :: rest) = '\x7d' :: rest := skipBlanks_cons rfl rest
    simp [pretty, value, hclose, reread, rereadFields]
  | cons f fs =>
    rw [toList_object] at hlimit ⊢
    have hlength : (fieldsText (level + 1) (f :: fs) ++
        ((newline level).toList ++ '\x7d' :: rest)).length < limit := by
      simp only [List.length_append, List.length_cons] at hlimit ⊢
      omega
    have hread := fieldsRest_pretty [] h (by simp) (by simp) hlength hlength
    obtain ⟨ds, hds⟩ : ∃ ds, fieldsText (level + 1) (f :: fs) ++
        ((newline level).toList ++ '\x7d' :: rest) = '"' :: ds :=
      ⟨_, by rw [fieldsText, toList_quoted]; rfl⟩
    rw [List.nil_append, hds] at hread
    have hskip : skipBlanks ((newline (level + 1)).toList ++ '"' :: ds) = '"' :: ds := by
      rw [skipBlanks_append (newline_blank _), skipBlanks_cons rfl]
    have hopen : ∀ e ∈ ('"' :: ds).head?, e ≠ '\x7d' := by
      rintro e ⟨⟩
      decide
    rw [hds, value_object (by rwa [hskip]), hskip, hread, reread, Option.map_map, Option.map_map]
    rfl

/-- What is written is read back, with its numbers read again. -/
theorem rereads_of_depth (limit : Nat) {depth : Nat} {j : Json} (h : j.depth ≤ depth) :
    Rereads limit depth j := by
  induction depth using Nat.strong_induction_on generalizing j with
  | h depth ih =>
    cases j with
    | null =>
      intro level rest _ _
      rw [value_scalar (by simp [pretty])]
      simp [pretty, scalar, reread]
    | boolean b =>
      intro level rest _ _
      rw [value_scalar (by cases b <;> simp [pretty])]
      cases b <;> simp [pretty, scalar, reread]
    | number d => exact rereads_number limit depth d
    | string s => exact rereads_string limit depth s
    | array items =>
      obtain ⟨depth, rfl⟩ : ∃ k, depth = k + 1 := Nat.exists_eq_succ_of_ne_zero (by grind [Json.depth])
      apply Rereads.array
      intro j hj
      apply ih depth (Nat.lt_succ_self depth)
      exact Nat.le_trans (depth_le_of_mem hj) (Nat.le_of_succ_le_succ h)
    | object fields =>
      obtain ⟨depth, rfl⟩ : ∃ k, depth = k + 1 := Nat.exists_eq_succ_of_ne_zero (by grind [Json.depth])
      apply Rereads.object
      intro f hf
      apply ih depth (Nat.lt_succ_self depth)
      exact Nat.le_trans (depth_le_of_mem_fields hf) (Nat.le_of_succ_le_succ h)

/-- The whole text of a value. -/
theorem parse?_pretty {j : Json} (h : j.depth ≤ maxDepth) : parse? (j.pretty 0) = j.reread := by
  have hvalue := rereads_of_depth ((j.pretty 0).toList.length + 1) h 0 [] (by simp)
    (fun _ hc => nomatch hc)
  have hskip := skipBlanks_pretty j 0 []
  rw [List.append_nil] at hvalue hskip
  unfold parse?
  simp only [hskip, hvalue]
  cases j.reread <;> rfl

end Scriptlet.Json
