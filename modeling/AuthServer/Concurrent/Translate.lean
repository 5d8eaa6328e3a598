import AuthServer.Concurrent.Program

/-!
# Programs as parts of a larger interface

A program over one interface becomes a program over another when each of its commands is
replaced by a program that yields a reply of the same type.
-/

namespace Concurrent

variable {Op Op' : Type} {Res : Op → Type} {Res' : Op' → Type} {α β ε : Type}

namespace Prog

/-- Replace every command. -/
def translate (f : (op : Op) → Prog Res' (Res op)) : Prog Res α → Prog Res' α
  | .pure a => .pure a
  | .call op k => (f op).bind fun r => (k r).translate f

/-- What the commands of the program are replaced by determines the commands of the result. -/
theorem Uses.translate {f : (op : Op) → Prog Res' (Res op)} {ok : Op → Prop} {ok' : Op' → Prop}
    {p : Prog Res α} (hp : p.Uses ok) (hf : ∀ op, ok op → (f op).Uses ok') :
    (p.translate f).Uses ok' := by
  induction p with
  | pure a => trivial
  | call op k ih => exact Uses.bind (hf op hp.1) fun r => ih r (hp.2 r)

end Prog

end Concurrent
