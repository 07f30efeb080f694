import Spmd.Proofs.Retyping.Assignment
import Spmd.Proofs.Retyping.Call
import Spmd.Proofs.Retyping.Value
import Spmd.Proofs.Typing.Steps

/-!
# Checking whole trees again

Whatever checking a tree of loaded nodes gives is checked again without a message, and looks the same
(`Check.typecheck_again`).
-/

namespace Spmd.Check

open Spmd.Expr

variable {T : Target} {e : Expr}

theorem leaf_durable (h : Checked T e) (hn : e.awaitsTarget = false) (hc : check e = return some e) : Durable T e :=
  .closed h hn fun _ => by rw [Fixed, hc]; exact Again.some rfl

theorem durable_steps : Steps T (Durable T) where
  leaf h hn _ hc := leaf_durable h hn hc
  name hf := .name hf
  unary node op := fun ⟨hc, _, ht⟩ => durably (checkUnary_delivers hc.operand ht node op) (checkUnary_endures hc ht node op)
  step node s := fun ⟨hc, _, ht⟩ => durably (checkStep_delivers hc.operand ht node s) (checkStep_endures hc ht node s)
  binary node op := fun ⟨hl, _, ha⟩ ⟨hr, _, hb⟩ =>
    durably (checkBinary_delivers hl.operand hr.operand node op ha hb) (checkBinary_endures hl hr node op ha hb)
  assign node op := by
    rintro ⟨ht, u, hu⟩ hv hw
    have hc := ht.operand.toChecked hu
    exact durably (checkAssign_delivers node hc hu hv.operand op fun hn => (hw hn).2)
      (checkAssign_endures node hc (ht.lasts hu) hu hv op fun hn => (hw hn).2)
  select node := fun ⟨ht, _, hw⟩ ⟨ha, _, hu⟩ ⟨hb, _, hv⟩ =>
    durably (checkSelect_delivers node ht.operand hw ha.operand hu hb.operand hv) (checkSelect_endures node ht hw ha hu hb hv)
  list node hes := checkList_durable node hes
  call node launch hc has hn :=
    durably (checkCall_delivers (fun a ha => (has a ha).operand) node hc.operand hc.takes launch fun m hm => (hn m hm).operand)
      (checkCall_endures has node hc launch hn)
  index node := fun ⟨hb, _, ht⟩ ⟨hi, _, hu⟩ =>
    durably (checkIndex_delivers hb.operand ht node hi.operand hu) (checkIndex_endures hb ht node hi hu)
  member node name arrow := fun ⟨hb, _, ht⟩ =>
    durably (checkMember_delivers hb.operand ht node name arrow) (checkMember_endures hb ht node name arrow)
  cast node _ ht hc := checkCast_durable node hc ht
  reference node := fun ⟨hc, _, ht⟩ => checkReference_durable hc ht node
  dereference node := fun ⟨hc, _, ht⟩ =>
    durably (checkDereference_delivers hc.operand ht node) (checkDereference_endures hc ht node)
  addressOf node hc := durably (checkAddressOf_delivers hc.operand node) (checkAddressOf_endures hc node)
  sizeOf node := fun ⟨hc, _, ht⟩ => durably (checkSizeOf_delivers node hc.operand ht) (checkSizeOf_endures node hc ht)
  sizeOfType node t := durably (checkSizeOfType_delivers node t) (checkSizeOfType_endures node t)
  new node varying ht hv hn hi :=
    durably (checkNew_delivers node ht varying (fun c hc => ⟨(hn c hc).1.operand, (hn c hc).2⟩) fun c hc => (hi c hc).operand)
      (checkNew_endures node ht hv hn hi)

theorem check_durable (h : Everywhere (Loaded T) e) : Yields T (check e) (Durable T) := durable_steps.check h

/-- What checking gives is checked again without a message, where it has nothing to decide anew. -/
theorem typecheck_again (h : Everywhere (Loaded T) e) :
    Yields T (typecheck e) fun t => Everywhere Repeats t → Again T (typecheck t) t := by
  refine Yields.mono (needed_yields (check_delivers (prepared_of_loaded h)) (check_durable h)) fun t ht hrep => ?_
  obtain ⟨hd, ho, u, hu⟩ := ht
  exact Fixed.needed (hd.lasts hu hrep) (ho.toChecked hu)

end Spmd.Check
