import Rehearsal.Proofs.Engine.Deadlock
import Rehearsal.Proofs.Engine.Writing
import Rehearsal.Proofs.Task.Selectors

/-!
# What disabled options trace

A selector of the number zero does not count as set, and means the root of a run, which is task 0.
So options that report themselves disabled are silent unless zero is given for them. Where it is, a
bubbling block is written once the end of the root is bubbled, and an interrupt block once the root
is held by an interruption; an unblocking block is not written even then, since the root has been
started before the first batch is picked.
-/
namespace Rehearsal

variable {σ : Type}

/-! ### Blocks of a trace -/

namespace TraceBlock

def heading : TraceBlock → String
  | unblocking => "-- UNBLOCKING:\n"
  | bubbling => "-- TASKS TO BUBBLE:\n"
  | interrupt => "-- INTERRUPT:\n"

def Heads (b : TraceBlock) (line : String) : Prop := ∃ body, line = b.heading ++ body

variable {b b' : TraceBlock} {line : String}

theorem Heads.append (h : b.Heads line) (s : String) : b.Heads (line ++ s) := by
  obtain ⟨body, rfl⟩ := h
  exact ⟨body ++ s, String.append_assoc ..⟩

/-- The fourth character tells the kinds of blocks apart. -/
theorem Heads.unique (h : b.Heads line) (h' : b'.Heads line) : b = b' := by
  obtain ⟨body, rfl⟩ := h
  obtain ⟨body', he⟩ := h'
  have hfourth := congrArg (·.toList[3]?) he
  cases b <;> cases b' <;> first | rfl | simp [heading] at hfourth

theorem not_heads_swallowed (b : TraceBlock) (u : Task) (e : Exn) :
    ¬ b.Heads (Config.swallowed u e) := by
  rintro ⟨body, he⟩
  have hswallowed : (Config.swallowed u e).toList[0]? = some 'S' := by
    unfold Config.swallowed
    iterate 4 rw [String.append_assoc]
    rw [String.toList_append]
    rfl
  have hheading : (b.heading ++ body).toList[0]? = some '-' := by
    rw [String.toList_append]
    cases b <;> rfl
  rw [he, hheading] at hswallowed
  cases hswallowed

end TraceBlock

/-- A bubbling block about these tasks can be written: no number that it has to show is too long. -/
def Registry.Writable (r : Registry) (finished : List Task) : Prop :=
  finished.any r.endsLong = false ∧
    (r.pendingTasks.any fun t => t.wait.hasLong || r.awaitsLong t) = false

namespace Machine

variable {m m' : Machine σ} {b b' : TraceBlock} {o : RunOptions}

/-- A block of this kind has been written. -/
def Wrote (m : Machine σ) (b : TraceBlock) : Prop := ∃ line ∈ m.trace, b.Heads line

theorem wrote_congr (h : m'.trace = m.trace) : m'.Wrote b ↔ m.Wrote b := by rw [Wrote, Wrote, h]

theorem wrote_note {line : String} : (m.note line).Wrote b ↔ m.Wrote b ∨ b.Heads line := by
  simp only [Wrote, note, Array.mem_push, or_and_right, exists_or, exists_eq_left]

theorem wrote_note_of_heads {line : String} (h : b'.Heads line) :
    (m.note line).Wrote b ↔ m.Wrote b ∨ b = b' :=
  wrote_note.trans (or_congr_right ⟨fun hb => hb.unique h, fun hb => hb ▸ h⟩)

theorem wrote_ite_note {applies : Bool} {line : String} (h : b'.Heads line) :
    (if applies then m.note line else m).Wrote b ↔ m.Wrote b ∨ b = b' ∧ applies = true := by
  cases applies with
  | false => simp
  | true => simp only [if_true, wrote_note_of_heads h, and_true]

theorem wrote_noteUnblocking {batch : List Task} (h : m.noteUnblocking o batch = .ok m') :
    m'.Wrote b ↔ m.Wrote b ∨ b = .unblocking ∧ o.debug.unblock.applies batch = true := by
  unfold noteUnblocking at h
  cases happlies : o.debug.unblock.applies batch with
  | false =>
    rw [happlies, if_neg Bool.false_ne_true] at h
    cases h
    simp
  | true =>
    rw [happlies, if_pos rfl] at h
    have hwrote : ∀ line, TraceBlock.unblocking.Heads line →
        ((m.note line).Wrote b ↔ m.Wrote b ∨ b = .unblocking) := fun _ => wrote_note_of_heads
    split at h <;> cases h
    rw [hwrote]
    · simp
    · exact .append (.append (.append ⟨_, rfl⟩ _) _) _

/-- A bubbling block that is asked for and can be written is. -/
theorem noteBubbling_of_writable {finished : List Task} (h : m.registry.Writable finished)
    (happlies : o.debug.bubble.applies finished = true) :
    ∃ line, TraceBlock.bubbling.Heads line ∧ m.noteBubbling o finished = .ok (m.note line) := by
  obtain ⟨shown, awaited⟩ := h
  unfold noteBubbling Registry.renderTasks Registry.renderPendingTasks
  rw [happlies, if_pos rfl, shown, awaited]
  exact ⟨_, .append (.append (.append ⟨_, rfl⟩ _) _) _, rfl⟩

theorem writable_of_noteBubbling {finished : List Task} (h : m.noteBubbling o finished = .ok m')
    (happlies : o.debug.bubble.applies finished = true) : m.registry.Writable finished := by
  unfold noteBubbling Registry.renderTasks Registry.renderPendingTasks at h
  rw [happlies, if_pos rfl] at h
  cases shown : finished.any m.registry.endsLong with
  | true =>
    rw [shown] at h
    cases h
  | false =>
    cases awaited :
      m.registry.pendingTasks.any fun t => t.wait.hasLong || m.registry.awaitsLong t with
    | true =>
      rw [shown, awaited] at h
      cases h
    | false => exact ⟨shown, awaited⟩

theorem wrote_noteBubbling {finished : List Task} (h : m.noteBubbling o finished = .ok m') :
    m'.Wrote b ↔ m.Wrote b ∨ b = .bubbling ∧ o.debug.bubble.applies finished = true := by
  cases happlies : o.debug.bubble.applies finished with
  | false =>
    unfold noteBubbling at h
    rw [happlies, if_neg Bool.false_ne_true] at h
    cases h
    simp
  | true =>
    obtain ⟨line, hheads, heq⟩ :=
      noteBubbling_of_writable (writable_of_noteBubbling h happlies) happlies
    rw [heq] at h
    cases h
    rw [wrote_note_of_heads hheads]
    simp

theorem wrote_noteInterrupt (t : Task) :
    (m.noteInterrupt o t).Wrote b ↔ m.Wrote b ∨ b = .interrupt ∧
    o.debug.interrupt.applies [t] = true :=
  wrote_ite_note <| .append (.append (.append (.append (.append ⟨_, rfl⟩ _) _) _) _) _

theorem wrote_suspend (t : Nat) (i : Interruption) :
    (m.suspend o t i).Wrote b ↔ m.Wrote b ∨ b = .interrupt ∧
      ∃ u, m.get? t = some u ∧ o.debug.interrupt.applies [u.block i] = true := by
  have hblocked : (m.modify t (·.block i)).get? t = (m.get? t).map (·.block i) :=
    Registry.get?_modify_self ..
  have hwrote : (m.modify t (·.block i)).Wrote b ↔ m.Wrote b := wrote_congr rfl
  unfold suspend
  dsimp only
  rw [hblocked]
  cases m.get? t with
  | none => simp [hwrote]
  | some u => simp [wrote_noteInterrupt, hwrote]

def Held (m : Machine σ) (t : Nat) : Prop := ∃ u, m.get? t = some u ∧ u.interruption ≠ none

theorem Hushed.not_held (h : m.Hushed m') {t : Nat} (ht : ∃ u, m.get? t = some u)
    (hfree : ¬ m.Held t) :
    ¬ m'.Held t := by
  obtain ⟨u, hu⟩ := ht
  have hnone : u.interruption = none := not_not.mp fun hn => hfree ⟨u, hu, hn⟩
  obtain ⟨u', hu', hn'⟩ := h.free hu hnone
  rintro ⟨v, hv, hn⟩
  rw [show m'.get? t = some u' from hu', Option.some.injEq] at hv
  exact hn (hv ▸ hn')

theorem get?_suspend {t : Nat} {u : Task} (i : Interruption) (hu : m.get? t = some u) :
    (m.suspend o t i).get? t = some (u.block i) := by
  rw [get?, registry_suspend]
  exact Registry.get?_modify_of_eq_some _ hu

theorem held_suspend {t : Nat} {u : Task} {i : Interruption} (hu : m.get? t = some u) :
    (m.suspend o t i).Held t :=
  ⟨u.block i, get?_suspend i hu, nofun⟩

theorem held_congr {t : Nat} (h : m'.registry = m.registry) : m'.Held t ↔ m.Held t := by
  rw [Held, Held, get?, get?, h]

end Machine

/-! ### A step -/

namespace Config

def Concerns (c : Config σ) (m' : Machine σ) : TraceBlock → List Task → Prop
  | .unblocking, tasks => c.control = .done ∧ (∃ root below, c.stack = .loop root :: below) ∧
      tasks = selectReadyBatch c.machine.registry.pendingTasks
  | .bubbling, tasks => ∃ ids, c.control = .bubble ids ∧ tasks = c.machine.registry.select ids ∧
      c.machine.registry.Writable tasks
  | .interrupt, tasks => ∃ t u, m'.get? t = some u ∧ u.interruption ≠ none ∧ tasks = [u]

/-- By the step to `m'` the root comes to what such blocks are about: its end is bubbled, and that
can be written, or an interruption holds it. It is never in a batch. -/
def RootEvent (c : Config σ) (m' : Machine σ) : TraceBlock → Prop
  | .unblocking => False
  | .bubbling => ∃ ids, c.control = .bubble ids ∧ 0 ∈ ids ∧
      c.machine.registry.Writable (c.machine.registry.select ids)
  | .interrupt => m'.Held 0

variable {o : RunOptions} {c : Config σ} {m' : Machine σ} {b : TraceBlock} {tasks : List Task}
  {begun : Nat → Prop}

/-- What has been written stays. -/
theorem Writes.mono (h : c.Writes o m') (hb : c.machine.Wrote b) : m'.Wrote b := by
  cases h with
  | blocks h =>
    cases h with
    | nothing h => exact (Machine.wrote_congr h.trace).mpr hb
    | suspends h t i =>
      exact (Machine.wrote_suspend t i).mpr (.inl ((Machine.wrote_congr h.trace).mpr hb))
  | bubbling _ wrote => exact (Machine.wrote_noteBubbling wrote).mpr (.inl hb)
  | unblocking _ _ htrace _ wrote =>
    exact (Machine.wrote_noteUnblocking wrote).mpr (.inl ((Machine.wrote_congr htrace).mpr hb))
  | swallowing u e => exact Machine.wrote_note.mpr (.inl hb)

/-- What is written newly is about tasks that it is asked for. -/
theorem Writes.wrote_cases (h : c.Writes o m') (hb : m'.Wrote b) :
    c.machine.Wrote b ∨ ∃ tasks, c.Concerns m' b tasks ∧
    (b.selector o.debug).applies tasks = true := by
  cases h with
  | blocks h =>
    cases h with
    | nothing h => exact .inl ((Machine.wrote_congr h.trace).mp hb)
    | @suspends m₁ h t i =>
      rcases (Machine.wrote_suspend t i).mp hb with hb | ⟨rfl, u, hu, happlies⟩
      · exact .inl ((Machine.wrote_congr h.trace).mp hb)
      · exact .inr ⟨[u.block i], ⟨t, u.block i, Machine.get?_suspend i hu, nofun, rfl⟩, happlies⟩
  | bubbling hcontrol wrote =>
    rcases (Machine.wrote_noteBubbling wrote).mp hb with hb | ⟨rfl, happlies⟩
    · exact .inl hb
    · exact .inr ⟨_, ⟨_, hcontrol, rfl, Machine.writable_of_noteBubbling wrote happlies⟩, happlies⟩
  | unblocking hcontrol hstack htrace _ wrote =>
    rcases (Machine.wrote_noteUnblocking wrote).mp hb with hb | ⟨rfl, happlies⟩
    · exact .inl ((Machine.wrote_congr htrace).mp hb)
    · exact .inr ⟨_, ⟨hcontrol, ⟨_, _, hstack⟩, rfl⟩, happlies⟩
  | swallowing u e =>
    exact .inl ((Machine.wrote_note.mp hb).resolve_right (b.not_heads_swallowed u e))

/-- A task that comes to be held is written about, if it is asked for. -/
theorem Writes.wrote_of_held (h : c.Writes o m') {t : Nat} (ht : ∃ u, c.machine.get? t = some u)
    (hfree : ¬ c.machine.Held t) (hheld : m'.Held t) :
    ∃ u, m'.get? t = some u ∧ (o.debug.interrupt.applies [u] = true → m'.Wrote .interrupt) := by
  cases h with
  | blocks hblocks =>
    cases hblocks with
    | nothing hushed => exact (hushed.not_held ht hfree hheld).elim
    | @suspends m₁ hushed x i =>
      have hfree₁ := hushed.not_held ht hfree
      obtain ⟨v, hv, hn⟩ := hheld
      have hget := hv
      rw [Machine.get?, Machine.registry_suspend] at hget
      by_cases hx : t = x
      · subst hx
        obtain ⟨u, hu, rfl⟩ :=
          Option.map_eq_some_iff.mp ((Registry.get?_modify_self ..).symm.trans hget)
        exact ⟨_, hv, fun happlies => (Machine.wrote_suspend t i).mpr (.inr ⟨rfl, u, hu, happlies⟩)⟩
      · rw [Registry.get?_modify_ne hx] at hget
        exact (hfree₁ ⟨v, hget, hn⟩).elim
  | bubbling _ wrote =>
    exact (hfree ((Machine.held_congr (Machine.registry_of_noteBubbling _ wrote)).mp hheld)).elim
  | unblocking _ _ _ hsame wrote =>
    exact (hfree ((Machine.held_congr ((Machine.registry_of_noteUnblocking _ wrote).trans hsame)).mp
      hheld)).elim
  | swallowing _ _ => exact (hfree hheld).elim

/-- Once the root has been started it is in no batch. -/
theorem root_not_mem_batch (h : c.Sound begun) (hbegun : begun 0)
    (hc : c.Concerns m' .unblocking tasks)
    {t : Task} (ht : t ∈ tasks) : t.id ≠ 0 := by
  obtain ⟨m, stack, control⟩ := c
  obtain ⟨rfl, ⟨root, below, rfl⟩, rfl⟩ := hc
  cases h with
  | resting _ nested => cases nested
  | looking core _ =>
    obtain ⟨hpending, hselectable, _⟩ := mem_selectReadyBatch.mp ht
    obtain ⟨i, hi, _⟩ := core.forest.mem_pendingTasks.mp hpending
    intro hid
    obtain rfl : i = 0 := (core.forest.id_eq hi).symm.trans hid
    exact core.not_begun hi ((core.stands hi).fresh_of_selectable hselectable) hbegun

/-- A block is about the root only when the root comes to what such blocks are about. -/
theorem rootEvent_of_concerns (h : c.Sound begun) (hbegun : begun 0) (forest : m'.registry.Forest)
    (hc : c.Concerns m' b tasks) {t : Task} (ht : t ∈ tasks) (hid : t.id = 0) :
    c.RootEvent m' b := by
  cases b with
  | unblocking => exact root_not_mem_batch h hbegun hc ht hid
  | bubbling =>
    obtain ⟨ids, hcontrol, rfl, writable⟩ := hc
    obtain ⟨i, hi, hget⟩ := List.mem_filterMap.mp ht
    obtain rfl : i = 0 := ((Rehearsal.Sound.forest h).id_eq hget).symm.trans hid
    exact ⟨ids, hcontrol, hi, writable⟩
  | interrupt =>
    obtain ⟨i, u, hget, hheld, rfl⟩ := hc
    obtain rfl := List.mem_singleton.mp ht
    obtain rfl : i = 0 := (forest.id_eq hget).symm.trans hid
    exact ⟨t, hget, hheld⟩

section Disabled

variable (w : World σ) (disabled : o.debug.enabled = false)
include disabled

theorem wrote_step_cases (h : c.Sound begun) (hbegun : begun 0)
    (hb : (c.step w o).machine.Wrote b) :
    c.machine.Wrote b ∨ b.selector o.debug = .one (.id 0) ∧ c.RootEvent (c.step w o).machine b := by
  rcases (writes_step w o c).wrote_cases hb with hb | ⟨tasks, hc, happlies⟩
  · exact .inl hb
  · obtain ⟨hzero, t, ht, hid⟩ :=
      (DebugOptions.applies_iff_of_disabled disabled b tasks).mp happlies
    exact .inr
      ⟨hzero, rootEvent_of_concerns h hbegun (Rehearsal.Sound.forest (sound_step w o h)) hc ht hid⟩

/-- Where zero is given, the end of the root is written about when it is bubbled, and the root when
it is blocked. -/
theorem wrote_of_rootEvent (h : c.Sound begun) (root : ∃ u, c.machine.get? 0 = some u)
    (hzero : b.selector o.debug = .one (.id 0)) (hevent : c.RootEvent (c.step w o).machine b) :
    (c.step w o).machine.Wrote b ∨ b = .interrupt ∧ c.machine.Held 0 := by
  have happlies : ∀ {tasks : List Task} {t : Task}, t ∈ tasks → t.id = 0 →
      (b.selector o.debug).applies tasks = true := fun ht hid =>
    (DebugOptions.applies_iff_of_disabled disabled b _).mpr ⟨hzero, _, ht, hid⟩
  obtain ⟨u, hu⟩ := root
  have hid : u.id = 0 := (Rehearsal.Sound.forest h).id_eq hu
  cases b with
  | unblocking => exact hevent.elim
  | bubbling =>
    obtain ⟨m, stack, control⟩ := c
    obtain ⟨ids, rfl, hmem, writable⟩ := hevent
    obtain ⟨line, hheads, heq⟩ :=
      Machine.noteBubbling_of_writable writable
        (happlies (List.mem_filterMap.mpr ⟨0, hmem, hu⟩) hid)
    have hstep : (step w o ⟨m, stack, .bubble ids⟩).machine = m.note line := by
      show (bubble o m stack ids).machine = _
      rw [bubble, if_neg (by simpa using List.ne_nil_of_mem hmem), heq]
      rfl
    rw [hstep, Machine.wrote_note]
    exact .inl (.inr hheads)
  | interrupt =>
    by_cases hheld : c.machine.Held 0
    · exact .inr ⟨rfl, hheld⟩
    obtain ⟨v, hv, hwrote⟩ := (writes_step w o c).wrote_of_held ⟨u, hu⟩ hheld hevent
    have hidv : v.id = 0 := (Rehearsal.Sound.forest (sound_step w o h)).id_eq hv
    exact .inl (hwrote (happlies (List.mem_singleton_self v) hidv))

end Disabled

/-! ### A run -/

/-- Within `n` steps the root comes to what such blocks are about. -/
def RootEventWithin (w : World σ) (o : RunOptions) (n : Nat) (c : Config σ) (b : TraceBlock) :
    Prop :=
  ∃ k < n, (run w o k c).RootEvent (run w o (k + 1) c).machine b

theorem rootEventWithin_succ {w : World σ} {n : Nat} : RootEventWithin w o (n + 1) c b ↔
    RootEventWithin w o n c b ∨ (run w o n c).RootEvent (run w o (n + 1) c).machine b :=
  Nat.exists_lt_succ_right

theorem launched_not_held (outer : σ) (name : String) (g : Nat) :
    ¬ (launched outer name g).machine.Held 0 := by
  have hroot : (launched outer name g).machine.get? 0 = some _ :=
    Registry.Forest.get?_create_new (r := Registry.empty) name .now none false
      (some (.ofGenerator g)) none nofun
  rintro ⟨u, hu, hn⟩
  rw [hroot, Option.some.injEq] at hu
  subst hu
  exact hn rfl

variable (w : World σ) (o : RunOptions) (outer : σ) (name : String) (g n : Nat)

/-- In every configuration of a run the root counts as started. -/
theorem sound_reached_begun_root :
    ∃ begun : Nat → Prop, begun 0 ∧ (run w o n (launched outer name g)).Sound begun := by
  obtain ⟨begun, hle, h⟩ := sound_run w o (Sound.counted (sound_launched outer name g)) n
  exact ⟨begun, hle 0 ⟨.inr rfl, nofun⟩, h⟩

/-- Where the root is held, it has come to be held. -/
theorem rootEventWithin_of_held (h : (run w o n (launched outer name g)).machine.Held 0) :
    RootEventWithin w o n (launched outer name g) .interrupt := by
  cases n with
  | zero => exact (launched_not_held outer name g h).elim
  | succ k => exact ⟨k, Nat.lt_succ_self k, h⟩

/-- **What a run with disabled options writes.** A block is written exactly if zero is given for it,
and the root has come to what such blocks are about. -/
theorem wrote_iff_of_disabled (disabled : o.debug.enabled = false) (b : TraceBlock) :
    (run w o n (launched outer name g)).machine.Wrote b ↔ b.selector o.debug = .one (.id 0) ∧
      RootEventWithin w o n (launched outer name g) b := by
  induction n with
  | zero =>
    have hsilent : ¬ (launched outer name g).machine.Wrote b :=
      fun ⟨_, hline, _⟩ => Array.not_mem_empty _ hline
    refine iff_of_false hsilent ?_
    rintro ⟨_, k, hk, _⟩
    cases hk
  | succ n ih =>
    have hheld := rootEventWithin_of_held w o outer name g n
    obtain ⟨begun, hbegun, hsound⟩ := sound_reached_begun_root w o outer name g n
    have hroot := exists_root w o outer name g n
    rw [rootEventWithin_succ, and_or_left, ← ih, run_succ]
    by_cases hfinal : (run w o n (launched outer name g)).isFinal = true
    · rw [if_pos hfinal]
      refine ⟨.inl, ?_⟩
      rintro (hb | ⟨hzero, hevent⟩)
      · exact hb
      · refine ih.mpr ⟨hzero, ?_⟩
        cases b with
        | unblocking => exact hevent.elim
        | bubbling =>
          obtain ⟨ids, hcontrol, _, _⟩ := hevent
          simp [isFinal, hcontrol] at hfinal
        | interrupt => exact hheld hevent
    · rw [if_neg hfinal]
      refine ⟨wrote_step_cases w disabled hsound hbegun, ?_⟩
      rintro (hb | ⟨hzero, hevent⟩)
      · exact (writes_step w o _).mono hb
      · rcases wrote_of_rootEvent w disabled hsound hroot hzero hevent with hb | ⟨rfl, h⟩
        · exact hb
        · exact (writes_step w o _).mono (ih.mpr ⟨hzero, hheld h⟩)

end Config

/-- The default options but for what is traced. -/
def RunOptions.tracing (d : DebugOptions) : RunOptions := { RunOptions.default with debug := d }

namespace Playbook

/-- The root returns when it is first resumed. -/
def idle : Playbook := ⟨fun _ => [], []⟩

variable (d : DebugOptions)

theorem idle_bubbled :
    (Config.run world (.tracing d) 3 (Config.launched idle "root" 0)).control = .bubble [0] := rfl

theorem idle_writable :
    (Config.run world (.tracing d) 3 (Config.launched idle "root" 0)).machine.registry.Writable
    ((Config.run world (.tracing d) 3 (Config.launched idle "root" 0)).machine.registry.select
      [0]) := ⟨rfl, rfl⟩

theorem delayed_held :
    (Config.run world (.tracing d) 3 (Config.launched delayed "root" 0)).machine.Held 0 := by
  show (Machine.suspend (.tracing d) _ 0 _).Held 0
  exact Machine.held_suspend rfl

end Playbook

/-- **When options that report themselves disabled trace nothing.** Each of their selectors means
nobody, unless it is the number zero, which means the task of id 0; so they mean nobody exactly if
none is zero. A run with such options has written a block exactly if zero is given for it, and the
root has come to what such blocks are about: never for unblocking, for bubbling when its end has
been bubbled and no number in the block is too long to be written, and for interrupts when an
interruption has come to hold it. So all runs with them are silent exactly if zero is given neither
for bubbling nor for interrupts. -/
theorem disabled_options_silent_iff {v : Value} {d : DebugOptions}
    (accepted : DebugOptions.ofValue v = .ok d)
    (disabled : d.enabled = false) :
    (∀ (b : TraceBlock) tasks, ∃ meant, (b.given v).selects tasks = .ok meant ∧
      (meant = true ↔ b.given v = .int 0 ∧ ∃ t ∈ tasks, t.id = 0)) ∧
    ((∀ (b : TraceBlock) tasks, (b.given v).selects tasks = .ok false) ↔
      ∀ b : TraceBlock, b.given v ≠ .int 0) ∧
    (∀ {σ : Type} (w : World σ) (o : RunOptions) (outer : σ) name g n (b : TraceBlock),
      o.debug = d →
      ((Config.run w o n (Config.launched outer name g)).machine.Wrote b ↔
        b.given v = .int 0 ∧ Config.RootEventWithin w o n (Config.launched outer name g) b)) ∧
    ((∀ {σ : Type} (w : World σ) (o : RunOptions) (outer : σ) name g n (b : TraceBlock),
      o.debug = d →
      ¬ (Config.run w o n (Config.launched outer name g)).machine.Wrote b) ↔
      TraceBlock.bubbling.given v ≠ .int 0 ∧ TraceBlock.interrupt.given v ≠ .int 0) := by
  have hwrote : ∀ {σ : Type} (w : World σ) (o : RunOptions) (outer : σ) name g n (b : TraceBlock),
      o.debug = d →
      ((Config.run w o n (Config.launched outer name g)).machine.Wrote b ↔
        b.given v = .int 0 ∧ Config.RootEventWithin w o n (Config.launched outer name g) b) := by
    rintro σ w o outer name g n b rfl
    rw [DebugOptions.given_eq_zero_iff accepted]
    exact Config.wrote_iff_of_disabled w o outer name g n disabled b
  refine ⟨DebugOptions.exists_selects_given accepted disabled,
    DebugOptions.selects_nobody_iff accepted disabled,
    hwrote, ⟨fun silent => ⟨fun hb => ?_, fun hb => ?_⟩, ?_⟩⟩
  · refine silent Playbook.world (.tracing d) .idle "root" 0 4 .bubbling rfl
      ((hwrote _ _ _ _ _ _ _ rfl).mpr ⟨hb, ?_⟩)
    exact ⟨3, by decide, [0], Playbook.idle_bubbled d, List.mem_singleton_self 0,
      Playbook.idle_writable d⟩
  · refine silent Playbook.world (.tracing d) .delayed "root" 0 3 .interrupt rfl ?_
    exact (hwrote _ _ _ _ _ _ _ rfl).mpr ⟨hb, 2, by decide, Playbook.delayed_held d⟩
  · rintro ⟨hbubbling, hinterrupt⟩ σ w o outer name g n b ho hb
    obtain ⟨hb, k, _, hevent⟩ := (hwrote w o outer name g n b ho).mp hb
    cases b with
    | unblocking => exact hevent
    | bubbling => exact hbubbling hb
    | interrupt => exact hinterrupt hb

/-- Zero given for unblocking means the root, and yet runs with it write no block. -/
theorem zero_for_unblocking_silent : ∃ d : DebugOptions,
    DebugOptions.ofValue (.dict ⟨false, [(.text "unblock", .int 0)]⟩) = .ok d ∧ d.enabled = false ∧
      (Value.int 0).selects [.fresh 0 "root" .now none false none none] = .ok true ∧
      ∀ {σ : Type} (w : World σ) (o : RunOptions) (outer : σ) name g n (b : TraceBlock),
        o.debug = d →
        ¬ (Config.run w o n (Config.launched outer name g)).machine.Wrote b := by
  have accepted : DebugOptions.ofValue (.dict ⟨false, [(.text "unblock", .int 0)]⟩) =
      .ok ⟨.one (.id 0), .unset, .unset⟩ := by
    with_unfolding_all rfl
  obtain ⟨meant, _, _, silent⟩ := disabled_options_silent_iff accepted rfl
  have hzero := DebugOptions.given_eq_zero_iff accepted
  have hgiven := (hzero .unblocking).mpr rfl
  obtain ⟨_, hselects, hmeant⟩ := meant .unblocking [.fresh 0 "root" .now none false none none]
  rw [hgiven, hmeant.mpr ⟨hgiven, _, List.mem_singleton_self _, rfl⟩] at hselects
  exact ⟨_, accepted, rfl, hselects,
    silent.mpr ⟨mt (hzero .bubbling).mp nofun, mt (hzero .interrupt).mp nofun⟩⟩

/-- Options with zero for interrupts report themselves disabled, and write that the root is blocked.
-/
theorem zero_for_interrupts_traced : ∃ d : DebugOptions,
    DebugOptions.ofValue (.dict ⟨false, [(.text "interrupt", .int 0)]⟩) =
      .ok d ∧ d.enabled = false ∧
      (Value.int 0).selects [.fresh 0 "root" .now none false none none] = .ok true ∧
      (Config.run Playbook.world (.tracing d) 3
        (Config.launched Playbook.delayed "root" 0)).machine.Wrote .interrupt := by
  refine ⟨⟨.unset, .unset, .one (.id 0)⟩, by with_unfolding_all rfl, rfl, ?_, ?_⟩
  · exact Selector.selects_toValue (.one (.id 0)) _
  · exact (Config.wrote_iff_of_disabled _ _ _ _ _ _ rfl .interrupt).mpr
      ⟨rfl, 2, by decide, Playbook.delayed_held _⟩

end Rehearsal
