import Spmd.Proofs.Program.Loaded
import Spmd.Proofs.Sharing.Check

/-!
# Trees that are ready to be checked

Before it is checked, a node has what it was loaded with. When it is checked again, its function names may already have
the functions that were picked for them (`Expr.Prepared`). A name that is called then takes the arguments of the call.
-/

namespace Spmd

namespace Expr

/-- A name of which at most its function is known. Where it is called with a number of arguments, its function takes them. -/
structure Apt (k : Option Nat) (f : FunctionName) : Prop where
  known : Known f.settleType
  takes : ∀ n, k = some n → f.Takes n

theorem apt_lawful : Lawful Apt where
  known h _ := h.known
  settle {k f} h := ⟨known_lawful.settle (k := k) h.known, fun n hn s sig hs => h.takes n hn s sig (by simpa using hs)⟩
  pick {k f s arguments} h hc hs hk := by
    refine ⟨known_lawful.pick (k := k) h.known hc hs hk, fun n hn s' sig' hs' hsig' => ?_⟩
    obtain ⟨-, sig, hsig, hcount⟩ := resolve_resolved hs
    obtain rfl : s = s' := by simpa using hs'
    rw [hsig] at hsig'
    cases hsig'
    exact hcount.trans (hk n hn)

/-- What a node keeps before it is checked, for the first time or again. -/
def Prepared (T : Target) : Expr → Prop
  | .function f => Known f.settleType
  | .call _ c args _ _ _ => ∀ u ∈ c.uses (some args.length), ∀ n, u.1 = some n → u.2.Takes n
  | e => e.Loaded T

variable {T : Target} {k : Option Nat} {e : Expr}

theorem settle_fresh {f : FunctionName} (h : (Expr.function f).Loaded T) : Fresh f.settleType := by
  obtain ⟨hchoice, htype, hstated⟩ := h
  refine ⟨⟨.inl (by simp [hchoice]), ?_, fun s hs => (hstated s (by simpa using hs)).legal⟩, by simp [hchoice]⟩
  rw [FunctionName.settleType_function]
  unfold FunctionName.settleType
  split
  · rename_i s hs
    rw [if_pos (by rw [htype]; rfl), hs]
    rfl
  · rename_i hn
    rw [htype, hn]
    rfl

/-- No function was picked for a name that was just loaded, so that it takes any arguments. -/
theorem apt_of_loaded {f : FunctionName} (h : (Expr.function f).Loaded T) : Apt k f := by
  refine ⟨(settle_fresh h).toKnown, fun n _ s sig hs => ?_⟩
  rw [h.1] at hs
  cases hs

/-- A tree can be checked if its names take the arguments that they are called with. -/
theorem prepared_of_uses (h : Everywhere (fun e => (∀ f, e ≠ .function f) → e.Loaded T) e) (hu : ∀ u ∈ e.uses k, Apt u.1 u.2) :
    Everywhere (Prepared T) e := by
  induction e using Expr.induct generalizing k with
  | h e ih =>
  refine .node ?_ fun c hc => ?_
  · cases e with
    | function f => exact (hu (k, f) List.mem_cons_self).known
    | call node c args launch count signature => exact fun u h n hn => (hu u (List.mem_append_left _ h)).takes n hn
    | _ => exact h.here fun f hf => by cases hf
  · obtain ⟨k', hk⟩ := child_uses hc k
    exact ih c hc (h.child hc) fun u h => hu u (hk u h)

theorem prepared_of_loaded (h : Everywhere (Loaded T) e) : Everywhere (Prepared T) e :=
  prepared_of_uses (k := none) (Everywhere.mono (fun _ h _ => h) h) fun _ hu => apt_of_loaded (uses_everywhere h hu)

end Expr

namespace Check

open Spmd.Expr

variable {T : Target}

/-- The callee of a call takes its arguments, where it is a name. -/
theorem callee_takes {node : Node} {c : Expr} {args : List Expr} {launch : Bool} {count : Option Expr}
    {signature : Option Signature} (h : Everywhere (Prepared T) (.call node c args launch count signature)) :
    Secluded (onNames T Apt) (check c) fun o => ∀ r ∈ o, ∀ f, r = .function f → f.Takes args.length := by
  have hapt : ∀ u ∈ c.uses (some args.length), Apt u.1 u.2 := fun u hu =>
    ⟨uses_everywhere (h.child (by simp [children])) hu, h.here u hu⟩
  refine Secluded.mono (check_leaves apt_lawful hapt) fun o ho r hr f hf => ?_
  subst hf
  cases ho _ hr with
  | name lawful => exact lawful.takes _ rfl
  | closed closed => cases closed

end Check

end Spmd
