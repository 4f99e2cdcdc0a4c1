import Brickred.Log.LogCore

/-!
# Who deletes a sink

The core takes over the sinks that `addSink` accepts. The books of this module balance
in every call: what a core owned and what it has been given is what it has deleted and
what it owns. So a sink that is handed over once is deleted once, by the latest when the
core is destroyed, and never used behind that.
-/

namespace Brickred

open Transition

namespace LogCore

variable {A : Type} {vsnprintf : Vsnprintf A} {s s' : LogCore A} {move : Op A × List Output}
  {moves : List (Op A × List Output)}

/-! ## Books -/

/-- The sinks of the logger in a slot. -/
def slotSinks (logger : Option (Logger A)) : List Sink := logger.elim [] Logger.sinks

/-- The sinks that the core owns. -/
def owned (s : LogCore A) : List Sink := s.loggers.flatMap slotSinks

/-- The sinks that are deleted, in order. -/
def deletedBy (outs : List Output) : List Sink :=
  outs.filterMap fun
    | .delete sink => some sink
    | _ => none

/-- The sink that a call hands over. -/
def addedBy : Op A × List Output → List Sink
  | (.addSink _ sink _, outs) => if .returned true ∈ outs then [sink] else []
  | _ => []

/-- The sinks that have been handed over, in order. -/
def added (moves : List (Op A × List Output)) : List Sink := moves.flatMap addedBy

/-- The sinks that have been deleted, in order. -/
def deleted (moves : List (Op A × List Output)) : List Sink :=
  moves.flatMap fun move => deletedBy move.2

@[simp] theorem deletedBy_append (outs outs' : List Output) :
    deletedBy (outs ++ outs') = deletedBy outs ++ deletedBy outs' :=
  List.filterMap_append ..

@[simp] theorem added_append (moves moves' : List (Op A × List Output)) :
    added (moves ++ moves') = added moves ++ added moves' :=
  List.flatMap_append

@[simp] theorem deleted_append (moves moves' : List (Op A × List Output)) :
    deleted (moves ++ moves') = deleted moves ++ deleted moves' :=
  List.flatMap_append

@[simp] theorem deletedBy_destruct (l : Logger A) : deletedBy l.destruct = l.sinks := by
  unfold Logger.destruct deletedBy
  induction l.sinks with
  | nil => rfl
  | cons sink rest ih => rw [List.map_cons, List.filterMap_cons, ih]

/-- Deleting loggers deletes their sinks. -/
theorem deletedBy_loggers (loggers : List (Option (Logger A))) :
    deletedBy (loggers.flatMap fun logger => logger.elim [] Logger.destruct) =
      loggers.flatMap slotSinks := by
  induction loggers with
  | nil => rfl
  | cons logger rest ih =>
    rw [List.flatMap_cons, List.flatMap_cons, deletedBy_append, ih]
    cases logger with
    | none => rfl
    | some l => exact congrArg (· ++ _) (deletedBy_destruct l)

/-! ## What is logged -/

/-- The loop gives one text to sinks that it is given, and does nothing else. -/
theorem mem_logLoop {level : Int} {text : List UInt8 × Int} {taps : List (Sink × Int)}
    {ready : Option (List UInt8 × Int)} {o : Output} (hready : ready = none ∨ ready = some text)
    (h : o ∈ Logger.logLoop level text taps ready) :
    o = .format ∨ ∃ sink ∈ taps.map Prod.fst, o = .log sink text.1 (text.2 % 2 ^ 64).toNat := by
  induction taps generalizing ready with
  | nil => cases h
  | cons tap rest ih =>
    obtain ⟨sink, levelFilter⟩ := tap
    have hrest : ∀ ready, ready = none ∨ ready = some text → o ∈ Logger.logLoop level text rest ready →
        o = .format ∨ ∃ sink' ∈ ((sink, levelFilter) :: rest).map Prod.fst,
          o = .log sink' text.1 (text.2 % 2 ^ 64).toNat := by
      intro ready hready hmem
      rcases ih hready hmem with ho | ⟨sink', hsink, ho⟩
      · exact .inl ho
      · exact .inr ⟨sink', List.mem_cons_of_mem _ hsink, ho⟩
    unfold Logger.logLoop at h
    split at h
    · exact hrest ready hready h
    · rcases hready with rfl | rfl
      · rcases List.mem_cons.mp h with ho | h
        · exact .inl ho
        · rcases List.mem_cons.mp h with ho | h
          · exact .inr ⟨sink, List.mem_cons_self, ho⟩
          · exact hrest _ (.inr rfl) h
      · rcases List.mem_cons.mp h with ho | h
        · exact .inr ⟨sink, List.mem_cons_self, ho⟩
        · exact hrest _ (.inr rfl) h

/-- A text that is there is not formatted again. -/
theorem count_format_some (level : Int) (text text' : List UInt8 × Int) (taps : List (Sink × Int)) :
    (Logger.logLoop level text taps (some text')).count .format = 0 := by
  induction taps with
  | nil => rfl
  | cons tap rest ih =>
    unfold Logger.logLoop
    split
    · exact ih
    · rw [List.count_cons_of_ne (by simp)]
      exact ih

theorem count_format_le (level : Int) (text : List UInt8 × Int) (taps : List (Sink × Int)) :
    (Logger.logLoop level text taps none).count .format ≤ 1 := by
  induction taps with
  | nil => exact Nat.zero_le 1
  | cons tap rest ih =>
    unfold Logger.logLoop
    split
    · exact ih
    · refine Nat.le_of_eq ?_
      rw [List.count_cons_self, List.count_cons_of_ne (by simp), count_format_some]

theorem map_taps (l : Logger A) : l.taps.map Prod.fst = l.sinks :=
  List.map_fst_zip (Nat.le_of_eq l.length_eq)

/-- What a call that logs does: it uses sinks of the logger it names, and reads the
arguments at most once. -/
structure LogsWith (sinks : List Sink) (outs : List Output) : Prop where
  mem : ∀ o ∈ outs, o = .format ∨ ∃ sink buffer size, o = .log sink buffer size ∧ sink ∈ sinks
  once : outs.count .format ≤ 1

theorem logsWith_nil (sinks : List Sink) : LogsWith sinks [] where
  mem o ho := by cases ho
  once := Nat.zero_le 1

theorem logsWith_logLoop (l : Logger A) (level : Int) (text : List UInt8 × Int) :
    LogsWith l.sinks (Logger.logLoop level text l.taps none) where
  mem o ho := by
    rw [← map_taps]
    rcases mem_logLoop (.inl rfl) ho with ho | ⟨sink, hsink, ho⟩
    · exact .inl ho
    · exact .inr ⟨sink, _, _, ho, hsink⟩
  once := count_format_le level text l.taps

theorem logsWith_log (l : Logger A) (message : Message A) : LogsWith l.sinks (l.log vsnprintf message) := by
  unfold Logger.log
  split
  · exact logsWith_nil l.sinks
  · exact logsWith_logLoop l _ _

theorem logsWith_plainLog (l : Logger A) (level : Int) (format : String) (args : A) :
    LogsWith l.sinks (l.plainLog vsnprintf level format args) := by
  unfold Logger.plainLog
  split
  · exact logsWith_nil l.sinks
  · exact logsWith_logLoop l _ _

theorem LogsWith.deletedBy {sinks : List Sink} {outs : List Output} (h : LogsWith sinks outs) :
    LogCore.deletedBy outs = [] := by
  refine List.filterMap_eq_nil_iff.mpr fun o ho => ?_
  rcases h.mem o ho with rfl | ⟨sink, buffer, size, rfl, -⟩ <;> rfl

theorem LogsWith.mono {sinks sinks' : List Sink} {outs : List Output} (h : LogsWith sinks outs)
    (hsub : sinks ⊆ sinks') : LogsWith sinks' outs where
  mem o ho := by
    rcases h.mem o ho with rfl | ⟨sink, buffer, size, rfl, hsink⟩
    · exact .inl rfl
    · exact .inr ⟨sink, buffer, size, rfl, hsub hsink⟩
  once := h.once

/-! ## One call -/

/-- A slot in range, and the loggers before and behind it. -/
theorem slot_split {loggerId : Int} {logger : Option (Logger A)} (h : s.slot loggerId = some logger) :
    ∃ before after, s.loggers = before ++ logger :: after ∧ loggerId = before.length ∧
      ∀ logger', (s.setSlot loggerId logger').loggers = before ++ logger' :: after := by
  unfold slot at h
  split at h
  · cases h
  · next hrange =>
    obtain ⟨hlt, hget⟩ := List.getElem?_eq_some_iff.mp h
    have hsplit : s.loggers = s.loggers.take loggerId.toNat ++ logger :: s.loggers.drop (loggerId.toNat + 1) := by
      rw [← hget, ← List.drop_eq_getElem_cons hlt, List.take_append_drop]
    have hlen : (s.loggers.take loggerId.toNat).length = loggerId.toNat :=
      List.length_take_of_le (Nat.le_of_lt hlt)
    refine ⟨_, _, hsplit, by rw [hlen]; omega, fun logger' => ?_⟩
    unfold setSlot
    exact List.set_eq_take_append_cons_drop.trans (if_pos hlt)

theorem loggerAt_eq_some {loggerId : Int} {l : Logger A} (h : s.loggerAt loggerId = some l) :
    s.slot loggerId = some (some l) :=
  Option.join_eq_some_iff.mp h

/-- The sinks of one slot are among those of the core. -/
theorem sinks_subset {loggerId : Int} {l : Logger A} (h : s.loggerAt loggerId = some l) :
    l.sinks ⊆ s.owned := by
  obtain ⟨before, after, hloggers, -, -⟩ := slot_split (loggerAt_eq_some h)
  intro sink hsink
  rw [owned, hloggers, List.flatMap_append, List.flatMap_cons]
  exact List.mem_append_right _ (List.mem_append_left _ hsink)

/-- What the core owned and is given is what it deletes and then owns. -/
def Balances (s : LogCore A) (move : Op A × List Output) (s' : LogCore A) : Prop :=
  (s.owned ++ addedBy move).Perm (deletedBy move.2 ++ s'.owned)

/-- A slot is written. -/
theorem balances_setSlot {loggerId : Int} {logger logger' : Option (Logger A)}
    {move : Op A × List Output} (h : s.slot loggerId = some logger)
    (hslot : (slotSinks logger ++ addedBy move).Perm (deletedBy move.2 ++ slotSinks logger')) :
    Balances s move (s.setSlot loggerId logger') := by
  obtain ⟨before, after, hloggers, -, hset⟩ := slot_split h
  unfold Balances owned
  rw [hset, hloggers, List.flatMap_append, List.flatMap_append, List.flatMap_cons, List.flatMap_cons]
  generalize before.flatMap slotSinks = x
  generalize after.flatMap slotSinks = y
  calc (x ++ (slotSinks logger ++ y)) ++ addedBy move
      _ = x ++ (slotSinks logger ++ (y ++ addedBy move)) := by simp
      _ |>.Perm (x ++ (slotSinks logger ++ (addedBy move ++ y))) :=
        (List.perm_append_comm.append_left _).append_left _
      _ = x ++ ((slotSinks logger ++ addedBy move) ++ y) := by simp
      _ |>.Perm (x ++ ((deletedBy move.2 ++ slotSinks logger') ++ y)) := (hslot.append_right y).append_left x
      _ = (x ++ deletedBy move.2) ++ (slotSinks logger' ++ y) := by simp
      _ |>.Perm ((deletedBy move.2 ++ x) ++ (slotSinks logger' ++ y)) := List.perm_append_comm.append_right _
      _ = deletedBy move.2 ++ (x ++ (slotSinks logger' ++ y)) := by simp

/-- No sink moves. -/
theorem balances_same {move : Op A × List Output} (hadd : addedBy move = [])
    (hdelete : deletedBy move.2 = []) (howned : s'.owned = s.owned) : Balances s move s' := by
  unfold Balances
  rw [hadd, hdelete, howned, List.append_nil, List.nil_append]

theorem step_balances (h : Steps vsnprintf s move s') : Balances s move s' := by
  obtain ⟨op, outs⟩ := move
  unfold Steps at h
  cases op with
  | setMaxLoggerCount count =>
    simp only [step, setMaxLoggerCount] at h
    split at h
    · cases h
      exact balances_same rfl rfl rfl
    · next hcount =>
      cases h
      unfold Balances owned
      dsimp only
      have hnone : ∀ n, (List.replicate n (none : Option (Logger A))).flatMap slotSinks = [] := by
        intro n
        induction n with
        | zero => rfl
        | succ n ih => exact ih
      have hdropped : (if count < s.loggers.length then s.loggers.drop count.toNat else []) =
          s.loggers.drop count.toNat := by
        split
        · rfl
        · exact (List.drop_eq_nil_of_le (by omega)).symm
      rw [hdropped, deletedBy_loggers, List.flatMap_append, hnone, List.append_nil]
      calc s.loggers.flatMap slotSinks ++ []
          _ = (s.loggers.take count.toNat).flatMap slotSinks ++
                (s.loggers.drop count.toNat).flatMap slotSinks := by
              rw [List.append_nil, ← List.flatMap_append, List.take_append_drop]
          _ |>.Perm _ := List.perm_append_comm
  | setMaxLogSize size =>
    simp only [step, setMaxLogSize] at h
    cases h
    refine balances_same rfl rfl ?_
    split <;> rfl
  | registerLogger loggerId formatter levelFilter =>
    simp only [step, registerLogger] at h
    split at h <;> cases h
    · exact balances_same rfl rfl rfl
    · exact balances_same rfl rfl rfl
    · next hslot => exact balances_setSlot hslot (.refl _)
  | removeLogger loggerId =>
    simp only [step, removeLogger] at h
    split at h <;> cases h
    · exact balances_same rfl rfl rfl
    · next logger hlogger =>
      refine balances_setSlot (loggerAt_eq_some hlogger) ?_
      show (logger.sinks ++ []).Perm (deletedBy logger.destruct ++ [])
      rw [deletedBy_destruct]
  | addSink loggerId sink levelFilter =>
    simp only [step, addSink] at h
    split at h <;> cases h
    · exact balances_same rfl rfl rfl
    · next logger hlogger => exact balances_setSlot (loggerAt_eq_some hlogger) (.refl _)
  | setLevelFilter loggerId levelFilter =>
    simp only [step, setLevelFilter] at h
    cases h
    split
    · exact balances_same rfl rfl rfl
    · next logger hlogger =>
      refine balances_setSlot (loggerAt_eq_some hlogger) ?_
      show (logger.sinks ++ []).Perm ([] ++ logger.sinks)
      rw [List.append_nil, List.nil_append]
  | log loggerId message =>
    simp only [step, log] at h
    split at h <;> cases h
    · exact balances_same rfl rfl rfl
    · next logger hlogger => exact balances_same rfl (logsWith_log logger message).deletedBy rfl
  | plainLog loggerId level format args =>
    simp only [step, plainLog] at h
    split at h <;> cases h
    · exact balances_same rfl rfl rfl
    · next logger hlogger =>
      exact balances_same rfl (logsWith_plainLog logger level format args).deletedBy rfl

/-- No call that logs does anything else, and no other call logs. -/
theorem step_logs (h : Steps vsnprintf s move s') :
    LogsWith s.owned move.2 ∨ ∀ o ∈ move.2, o ≠ .format ∧ ∀ sink buffer size, o ≠ .log sink buffer size := by
  have hdestruct : ∀ l : Logger A, ∀ o ∈ l.destruct, o ≠ .format ∧
      ∀ sink buffer size, o ≠ .log sink buffer size := by
    intro l o ho
    obtain ⟨sink, -, rfl⟩ := List.mem_map.mp ho
    simp
  obtain ⟨op, outs⟩ := move
  unfold Steps at h
  cases op with
  | setMaxLoggerCount count =>
    simp only [step, setMaxLoggerCount] at h
    split at h <;> cases h
    · exact .inr (by simp)
    · refine .inr fun o ho => ?_
      obtain ⟨logger, -, ho⟩ := List.mem_flatMap.mp ho
      cases logger with
      | none => cases ho
      | some l => exact hdestruct l o ho
  | removeLogger loggerId =>
    simp only [step, removeLogger] at h
    split at h <;> cases h
    · exact .inr (by simp)
    · next logger _ => exact .inr (hdestruct logger)
  | registerLogger loggerId formatter levelFilter =>
    simp only [step] at h
    cases h
    exact .inr (by simp)
  | addSink loggerId sink levelFilter =>
    simp only [step] at h
    cases h
    exact .inr (by simp)
  | setMaxLogSize | setLevelFilter =>
    simp only [step] at h
    cases h
    exact .inr (by simp)
  | log loggerId message =>
    simp only [step, log] at h
    split at h <;> cases h
    · exact .inr (by simp)
    · next logger hlogger => exact .inl ((logsWith_log logger message).mono (sinks_subset hlogger))
  | plainLog loggerId level format args =>
    simp only [step, plainLog] at h
    split at h <;> cases h
    · exact .inr (by simp)
    · next logger hlogger =>
      exact .inl ((logsWith_plainLog logger level format args).mono (sinks_subset hlogger))

/-! ## Runs -/

/-- The books of a whole run. -/
theorem run_balances (h : Run (Steps vsnprintf) (init A) moves s) :
    (added moves).Perm (deleted moves ++ s.owned) := by
  refine h.history (I := fun moves s => (added moves).Perm (deleted moves ++ s.owned)) ?_ ?_
  swap
  · exact List.Perm.refl ([] : List Sink)
  intro moves s move s' hbooks hstep
  rw [added_append, deleted_append]
  calc added moves ++ added [move]
      _ |>.Perm ((deleted moves ++ s.owned) ++ added [move]) := hbooks.append_right _
      _ = deleted moves ++ (s.owned ++ addedBy move) := by simp [added]
      _ |>.Perm (deleted moves ++ (deletedBy move.2 ++ s'.owned)) := (step_balances hstep).append_left _
      _ = (deleted moves ++ deleted [move]) ++ s'.owned := by simp [deleted]

/-- What there is to say of a call from the calls before it: a sink that it uses has been
handed over and is not deleted, and arguments are read at most once. -/
def UsesOwned (before : List (Op A × List Output)) (move : Op A × List Output) : Prop :=
  (∀ sink buffer size, .log sink buffer size ∈ move.2 → sink ∈ added before ∧ sink ∉ deleted before) ∧
    move.2.count .format ≤ 1

/-- Where no sink is handed over twice, each sink that the core has taken is deleted
exactly once, the core being destroyed at the end, and it is used only in between. -/
theorem sinks_deleted_once (h : Run (Steps vsnprintf) (init A) moves s) (honce : (added moves).Nodup) :
    (added moves).Perm (deleted moves ++ deletedBy s.destruct) ∧
      (deleted moves ++ deletedBy s.destruct).Nodup ∧ Justified UsesOwned moves := by
  have hbooks := run_balances h
  have hdestruct : deletedBy s.destruct = s.owned := deletedBy_loggers s.loggers
  refine ⟨by rwa [hdestruct], by rw [hdestruct]; exact hbooks.nodup_iff.mp honce, ?_⟩
  intro before move after hmoves
  subst hmoves
  obtain ⟨s₁, hbefore, hrest⟩ := h.split
  cases hrest with
  | cons hstep _ =>
    rw [added_append] at honce
    have hbooks₁ := run_balances hbefore
    have hnodup := hbooks₁.nodup_iff.mp (List.nodup_append.mp honce).1
    rcases step_logs hstep with hlogs | hquiet
    · refine ⟨fun sink buffer size ho => ?_, hlogs.once⟩
      have hsink : sink ∈ s₁.owned := by
        rcases hlogs.mem _ ho with ho | ⟨sink', buffer', size', ho, hsink⟩
        · cases ho
        · cases ho
          exact hsink
      constructor
      · exact hbooks₁.mem_iff.mpr (List.mem_append_right _ hsink)
      · exact fun hdeleted => (List.nodup_append.mp hnodup).2.2 sink hdeleted sink hsink rfl
    · refine ⟨fun sink buffer size ho => absurd rfl ((hquiet _ ho).2 sink buffer size), ?_⟩
      rw [List.count_eq_zero.mpr fun ho => (hquiet _ ho).1 rfl]
      exact Nat.zero_le 1

/-- Two sinks of one logger, of which one text reaches both. -/
theorem sinks_deleted_once_two : ∃ (moves : _) (s : LogCore Unit),
    Run (Steps fun size _ _ => (List.replicate size 0, 3)) (init Unit) moves s ∧
      added moves = [7, 8] ∧ deleted moves = [] ∧ [7, 8].Perm (deletedBy s.destruct) := by
  have hrun : Run (Steps fun size _ _ => (List.replicate size 0, 3)) (init Unit) _ _ :=
    .cons (steps_step _ _ (.setMaxLogSize 8)) <| .cons (steps_step _ _ (.registerLogger 0 none 0)) <|
      .cons (steps_step _ _ (.addSink 0 7 0)) <| .cons (steps_step _ _ (.addSink 0 8 0)) <|
      .cons (steps_step _ _ (.plainLog 0 1 "" ())) .nil
  refine ⟨_, _, hrun, by decide, by decide, ?_⟩
  exact (sinks_deleted_once hrun (by decide)).1

end LogCore

end Brickred
