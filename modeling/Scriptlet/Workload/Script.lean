import Scriptlet.Number.Rounding
import Scriptlet.Reader.Parse

/-! The script whose running time is measured. -/
namespace Scriptlet.Workload

/-- The script that is run if no other is given: its last lines call one of three summing functions. -/
def builtinScript : String :=
"function sum_numbers(N) \x7b
    sum = 0;
    i = 0;
    while (i < N) \x7b
        if (i < N / 2) \x7b
            sum = sum + i;
        \x7d
        i = i + 1;
    \x7d
    return sum;
\x7d;


function sum_numbers_bridge(N) \x7b
    sum = 0;
    i = 0;
    while (i < N) \x7b
        if (i % 3) \x7b
            sum = sum + i;
        \x7d
        i = i + 1;
    \x7d
    return sum;
\x7d;


function sum_numbers_bridge_2(N) \x7b
    sum = 0;
    i = 0;
    while (i < N) \x7b
        if (i < N / 2) \x7b
            sum = sum + i;
        \x7d
        i = i + 1;
    \x7d
    return sum;
\x7d;


x = 3000;
x = 30000000;
print(sum_numbers_bridge(x));

"

/-- The variable through which a script takes its input. -/
def inputName : String := "x"

/-- Replaces the first assignment of the input. -/
def replaceFirst (n : Number) : List Stmt → Option (List Stmt)
  | [] => none
  | .assign x e :: ss =>
    if x == inputName then some (.assign x (.number n) :: ss)
    else (replaceFirst n ss).map (.assign x e :: ·)
  | s :: ss => (replaceFirst n ss).map (s :: ·)

/-- Why a script cannot be given its input. -/
inductive InputError where
  | parse (error : SyntaxError)
  | noAssignment

/-- The script with `n` in place of the value that it last assigns to its input, outside every block
and function. -/
def withInput (source : String) (n : Nat) : Except InputError Program :=
  match Program.parse source with
  | .error e => .error (.parse e)
  | .ok p =>
    match replaceFirst (.ofNat n) p.body.reverse with
    | some body => .ok ⟨body.reverse⟩
    | none => .error .noAssignment

end Scriptlet.Workload
