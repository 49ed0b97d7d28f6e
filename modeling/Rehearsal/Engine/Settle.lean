import Rehearsal.Engine.Machine

/-!
# Settling interruptions

Whether what has just finished satisfies what a blocked task waits for. A task waiting for its
children needs all of them, one waiting for a child, a join or a gather needs all it depends on,
and a race is decided by the first of its members, in member order, among those that finished.
-/
namespace Rehearsal.Registry

/-- Whether the finished tasks satisfy the interruption of task `t`, and the interruption and the
registry afterwards. The members that lose a race are let go. -/
def settle (r : Registry) (t : Nat) (i : Interruption) (finished : List Nat) :
    Except Refusal (Bool × Interruption × Registry) :=
  match i.kind with
  | .children =>
    match r.get? t with
    | some task =>
      if task.children.isEmpty then .ok (true, i.resolve i.pending, r) else .ok (false, i, r)
    | none => .ok (false, i, r)
  | .generator =>
    match i.dependencies with
    | [dependency] =>
      if finished.contains dependency then
        match r.get? dependency with
        | some d => .ok (true, i.resolve (.value d.result), r)
        | none => .error ⟨.key, [.int dependency]⟩
      else .ok (false, i, r)
    | [] => .error (.value "not enough values to unpack (expected 1, got 0)")
    | _ => .error (.value "too many values to unpack (expected 1)")
  | .join | .all =>
    if i.dependencies.any finished.contains then
      let pending := r.settleFinished i.pending
      let remaining := pending.waitingOn
      let i := { i with pending, dependencies := remaining }
      if remaining.isEmpty then .ok (true, i.resolve (.value pending.unwrap), r)
      else .ok (false, i, r)
    else .ok (false, i, r)
  | .race =>
    match i.pending.waitingOn.find? finished.contains with
    | none => .ok (false, i, r)
    | some winner =>
      let losers := i.pending.waitingOn.filter fun l => l != winner
      let r := losers.foldl (fun r l => if r.isDone l then r else r.letGo l) r
      let result := match r.get? winner with
        | some w => w.result
        | none => .null
      let pending := i.pending.mapSlots fun slot =>
        if slot.awaited? == some winner then .completed result else .value .null
      let i := { i with pending, dependencies := [winner] }
      .ok (true, i.resolve (.value pending.unwrap), r)

end Rehearsal.Registry
