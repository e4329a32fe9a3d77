import Psocks.Tunnel.Registry

namespace Psocks.Tunnel
open Linked Psocks.Lists
variable {max : Int} {order : List Nat} {n first : Nat} {s next : Course} {live : List Nat} {t : Nat → Bool}

-- A session comes while there is room for it, or the session whose turn it is to make
-- room has not been told to before.
def MakesRoom (max : Int) (s : Course) (e : Event) : Prop :=
  ∀ n, e.admits s = some n → (s.living.length : Int) < max ∨
    ∃ first, hevListFirst s.sessionSet = some first ∧ s.terminated first = false

instance roomDecidable (max : Int) (s : Course) (e : Event) : Decidable (MakesRoom max s e) :=
  decidable_of_iff (∀ n ∈ e.admits s, (s.living.length : Int) < max ∨ (hevListFirst s.sessionSet).any (fun first => !s.terminated first) = true)
    (forall₂_congr fun n _ => by simp [Option.any_eq_true])

end Psocks.Tunnel
