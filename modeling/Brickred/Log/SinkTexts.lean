import Mathlib.Logic.Function.Basic
import Brickred.Log.SinkOwnership

/-!
# What a sink is given

From outside there are no slots and no vectors. A `Wiring` says what the rules of each
logger are, and for each sink which logger it listens to and from which level on; what a
sink hears of a call is read off that. The core is shown to refine it: in every run each
sink is given the texts that it should hear, in order, cut to the size that its logger
was registered with.
-/

namespace Brickred

open Transition

namespace LogCore

variable {A : Type}

/-! ## Wirings -/

/-- A logger, seen from outside. -/
structure Rules (A : Type) where
  formatter : Option (LogFormatter A)
  levelFilter : Int
  maxLogSize : Nat

/-- The text of a format: the beginning of the buffer, as long as is counted, cut to leave
one byte of the buffer. -/
def Rules.plainText (vsnprintf : Vsnprintf A) (r : Rules A) (format : String) (args : A) : List UInt8 :=
  let (buffer, count) := vsnprintf r.maxLogSize format args
  buffer.take (min count.toNat (r.maxLogSize - 1))

/-- The text that a formatter makes of a message, if there is a formatter. -/
def Rules.text (vsnprintf : Vsnprintf A) (r : Rules A) (message : Message A) : List UInt8 :=
  match r.formatter with
  | none => r.plainText vsnprintf message.format message.args
  | some formatter =>
    let (buffer, count) := formatter r.maxLogSize message
    buffer.take (min count (r.maxLogSize - 1))

/-- The core, seen from outside: how many ids there are, the size for loggers to come, the
loggers, and the logger each sink listens to with its own level. -/
structure Wiring (A : Type) where
  count : Nat
  maxLogSize : Nat
  rules : Int → Option (Rules A)
  taps : Sink → Option (Int × Int)

namespace Wiring

/-- No logger but the id 0 to come. -/
def init (A : Type) : Wiring A := ⟨1, 4096, fun _ => none, fun _ => none⟩

def step (w : Wiring A) : Op A → Wiring A
  | .setMaxLoggerCount count =>
    if count < 0 then w
    else
      { w with
        count := count.toNat
        rules := fun id => if id < count then w.rules id else none
        taps := fun sink => (w.taps sink).filter fun tap => tap.1 < count }
  | .setMaxLogSize size => if size ≤ 0 then w else { w with maxLogSize := size.toNat }
  | .registerLogger loggerId formatter levelFilter =>
    if 0 ≤ loggerId ∧ loggerId < w.count ∧ (w.rules loggerId).isNone then
      { w with rules := Function.update w.rules loggerId (some ⟨formatter, levelFilter, w.maxLogSize⟩) }
    else w
  | .removeLogger loggerId =>
    { w with
      rules := Function.update w.rules loggerId none
      taps := fun sink => (w.taps sink).filter fun tap => tap.1 ≠ loggerId }
  | .addSink loggerId sink levelFilter =>
    if (w.rules loggerId).isSome then
      { w with taps := Function.update w.taps sink (some (loggerId, levelFilter)) }
    else w
  | .setLevelFilter loggerId levelFilter =>
    { w with
      rules := Function.update w.rules loggerId
        ((w.rules loggerId).map fun r => { r with levelFilter }) }
  | .log _ _ | .plainLog _ _ _ _ => w

/-- The rules of a logger, if a sink hears what is logged with it on a level. -/
def listens (w : Wiring A) (sink : Sink) (loggerId level : Int) : Option (Rules A) :=
  match w.rules loggerId, w.taps sink with
  | some r, some (loggerId', levelFilter) =>
    if loggerId' = loggerId ∧ r.levelFilter ≤ level ∧ levelFilter ≤ level then some r else none
  | _, _ => none

/-- What a sink hears of a call. -/
def heard (vsnprintf : Vsnprintf A) (w : Wiring A) (sink : Sink) : Op A → Option (List UInt8)
  | .log loggerId message => (w.listens sink loggerId message.level).map (·.text vsnprintf message)
  | .plainLog loggerId level format args =>
    (w.listens sink loggerId level).map (·.plainText vsnprintf format args)
  | _ => none

/-- What a sink hears of one call after the other. -/
def hears (vsnprintf : Vsnprintf A) (sink : Sink) : Wiring A → List (Op A) → List (List UInt8)
  | _, [] => []
  | w, op :: ops => (w.heard vsnprintf sink op).toList ++ hears vsnprintf sink (w.step op) ops

end Wiring

/-! ## Honest formatters -/

/-- A formatter fills a buffer of the size that it is told, and counts what an `int32_t`
can hold. -/
def Honest (formatter : LogFormatter A) : Prop :=
  ∀ size message, (formatter size message).1.length = size ∧ (formatter size message).2 < 2 ^ 31

/-- A call with an honest formatter, or with a size that is an `int`. -/
def Op.Honest : Op A → Prop
  | .registerLogger _ formatter _ => ∀ f ∈ formatter, LogCore.Honest f
  | .setMaxLogSize size => size < 2 ^ 31
  | _ => True

/-- A buffer that the C library fills is as large as it is told. -/
def HonestLibrary (vsnprintf : Vsnprintf A) : Prop :=
  ∀ size format args, (vsnprintf size format args).1.length = size

/-- A logger with an honest formatter. -/
structure Logger.Sound (l : Logger A) : Prop where
  size : l.maxLogSize < 2 ^ 31
  honest : ∀ f ∈ l.formatter, Honest f

/-- A logger, seen from outside. -/
def Logger.rules (l : Logger A) : Rules A := ⟨l.formatter, l.levelFilter, l.maxLogSize.toNat⟩

/-! ## The texts of one call -/

section Texts

variable {vsnprintf : Vsnprintf A} {level : Int} {text : List UInt8 × Int} {taps : List (Sink × Int)}
  {ready : Option (List UInt8 × Int)} {l : Logger A} {sink : Sink} {levelFilter : Int}

/-- The bytes that a sink is given. -/
def given (sink : Sink) (outs : List Output) : List (List UInt8) :=
  outs.filterMap fun
    | .log sink' buffer size => if sink' = sink then some (buffer.take size) else none
    | _ => none

/-- The bytes of a text, as a sink sees them. -/
def visible (text : List UInt8 × Int) : List UInt8 := text.1.take (text.2 % 2 ^ 64).toNat

theorem given_of_not_mem (hready : ready = none ∨ ready = some text) (h : sink ∉ taps.map Prod.fst) :
    given sink (Logger.logLoop level text taps ready) = [] := by
  refine List.filterMap_eq_nil_iff.mpr fun o ho => ?_
  rcases mem_logLoop hready ho with rfl | ⟨sink', hsink, rfl⟩
  · rfl
  · have hne : sink' ≠ sink := fun heq => h (heq ▸ hsink)
    exact if_neg hne

theorem given_of_mem (hready : ready = none ∨ ready = some text) (hnodup : (taps.map Prod.fst).Nodup)
    (h : (sink, levelFilter) ∈ taps) :
    given sink (Logger.logLoop level text taps ready) =
      if level < levelFilter then [] else [visible text] := by
  induction taps generalizing ready with
  | nil => cases h
  | cons tap rest ih =>
    obtain ⟨sink', levelFilter'⟩ := tap
    rw [List.map_cons, List.nodup_cons] at hnodup
    obtain ⟨hfirst, hnodup⟩ := hnodup
    have hloop : ∀ ready', ready' = none ∨ ready' = some text →
        given sink (Logger.logLoop level text ((sink', levelFilter') :: rest) ready') =
          (if level < levelFilter' then [] else if sink' = sink then [visible text] else []) ++
            given sink (Logger.logLoop level text rest
              (if level < levelFilter' then ready' else some text)) := by
      intro ready' hready'
      by_cases hlevel : level < levelFilter'
      · simp only [Logger.logLoop, if_pos hlevel, List.nil_append]
      · by_cases hsink : sink' = sink
        · rcases hready' with rfl | rfl <;>
            simp [Logger.logLoop, if_neg hlevel, given, visible, if_pos hsink]
        · rcases hready' with rfl | rfl <;>
            simp [Logger.logLoop, if_neg hlevel, given, if_neg hsink]
    have hnext : (if level < levelFilter' then ready else some text) = none ∨
        (if level < levelFilter' then ready else some text) = some text := by
      split
      · exact hready
      · exact .inr rfl
    rw [hloop ready hready]
    rcases List.mem_cons.mp h with heq | hmem
    · cases heq
      rw [given_of_not_mem hnext hfirst, if_pos rfl, List.append_nil]
    · have hne : sink' ≠ sink := by
        rintro rfl
        exact hfirst (List.mem_map.mpr ⟨_, hmem, rfl⟩)
      rw [if_neg hne, ite_self, List.nil_append]
      exact ih hnext hnodup hmem

/-- The size that the source computes for a text is that of the rules. -/
theorem toNat_cut (l : Logger A) (hsize : l.maxLogSize < 2 ^ 31) {count : Int} (hcount : 0 ≤ count) :
    (Logger.cut l.maxLogSize count % 2 ^ 64).toNat = min count.toNat (l.maxLogSize.toNat - 1) := by
  have hpos := l.maxLogSize_pos
  unfold Logger.cut
  rw [Int.emod_eq_of_lt (by omega) (by omega)]
  omega

theorem visible_plainText (hl : l.Sound) (format : String) (args : A) :
    visible (Logger.plainText vsnprintf l.maxLogSize format args) =
      l.rules.plainText vsnprintf format args := by
  unfold visible Logger.plainText Rules.plainText
  dsimp only [Logger.rules]
  rw [toNat_cut l hl.size (by split <;> omega)]
  congr 2
  split <;> omega

theorem visible_text (hl : l.Sound) (message : Message A) :
    visible (Logger.text vsnprintf l.formatter l.maxLogSize message) =
      l.rules.text vsnprintf message := by
  unfold Logger.text Rules.text
  cases hf : l.formatter with
  | none =>
    have hrules : l.rules.formatter = none := hf
    rw [hrules]
    exact visible_plainText hl message.format message.args
  | some formatter =>
    have hrules : l.rules.formatter = some formatter := hf
    rw [hrules]
    obtain ⟨-, hcount⟩ := hl.honest formatter hf l.maxLogSize.toNat message
    unfold visible
    dsimp only [Logger.rules]
    rw [Int.bmod_eq_of_le (by omega) (by omega), toNat_cut l hl.size (by omega), Int.toNat_natCast]

/-- Texts do not go beyond their buffers. -/
theorem size_lt {buffer : List UInt8} {count : Int} (l : Logger A) (hsize : l.maxLogSize < 2 ^ 31)
    (hbuffer : buffer.length = l.maxLogSize.toNat) (hcount : 0 ≤ count) :
    (Logger.cut l.maxLogSize count % 2 ^ 64).toNat < buffer.length := by
  have hpos := l.maxLogSize_pos
  rw [toNat_cut l hsize hcount, hbuffer]
  omega

end Texts

/-! ## Slots -/

section Slots

variable {s s' : LogCore A} {loggerId loggerId' : Int} {logger logger' : Option (Logger A)}

theorem slot_setSlot (h : s.slot loggerId = some logger) :
    (s.setSlot loggerId logger').slot loggerId' =
      if loggerId' = loggerId then some logger' else s.slot loggerId' := by
  obtain ⟨before, after, hloggers, hid, hset⟩ := slot_split h
  unfold slot
  rw [hset, hloggers, hid]
  by_cases hrange : loggerId' < 0 ∨ loggerId' ≥ (before ++ logger :: after).length
  · have hrange' : loggerId' < 0 ∨ loggerId' ≥ (before ++ logger' :: after).length := by simpa using hrange
    have hne : loggerId' ≠ before.length := by
      rintro rfl
      simp at hrange
      omega
    rw [if_pos hrange, if_pos hrange', if_neg hne]
  · have hrange' : ¬ (loggerId' < 0 ∨ loggerId' ≥ (before ++ logger' :: after).length) := by
      simpa using hrange
    rw [if_neg hrange, if_neg hrange']
    by_cases hsame : loggerId' = before.length
    · rw [if_pos hsame, hsame, Int.toNat_natCast, List.getElem?_append_right (Nat.le_refl _),
        Nat.sub_self, List.getElem?_cons_zero]
    · rw [if_neg hsame]
      rcases Nat.lt_or_gt_of_ne (show loggerId'.toNat ≠ before.length by omega) with hlt | hgt
      · rw [List.getElem?_append_left hlt, List.getElem?_append_left hlt]
      · have hle := Nat.le_of_lt hgt
        rw [List.getElem?_append_right hle, List.getElem?_append_right hle]
        obtain ⟨n, hn⟩ := Nat.exists_eq_succ_of_ne_zero (Nat.sub_ne_zero_of_lt hgt)
        rw [hn, List.getElem?_cons_succ, List.getElem?_cons_succ]

theorem loggerAt_setSlot (h : s.slot loggerId = some logger) :
    (s.setSlot loggerId logger').loggerAt loggerId' =
      if loggerId' = loggerId then logger' else s.loggerAt loggerId' := by
  unfold loggerAt
  rw [slot_setSlot h]
  split <;> rfl

theorem slot_isSome (s : LogCore A) (loggerId : Int) :
    (s.slot loggerId).isSome ↔ 0 ≤ loggerId ∧ loggerId < s.loggers.length := by
  unfold slot
  split
  · next hrange =>
    constructor
    · intro h
      cases h
    · rintro ⟨hlo, hhi⟩
      omega
  · rw [Option.isSome_iff_ne_none, ne_eq, List.getElem?_eq_none_iff]
    omega

/-- A smaller or larger table has the same loggers, as far as it goes. -/
theorem loggerAt_resize (s : LogCore A) {count : Int} (hcount : ¬ count < 0) :
    (s.setMaxLoggerCount count).1.loggerAt loggerId =
      if loggerId < count then s.loggerAt loggerId else none := by
  have heq : s.setMaxLoggerCount count = (({ s with
      loggers := s.loggers.take count.toNat ++
        List.replicate (count.toNat - s.loggers.length) none } : LogCore A), _) := if_neg hcount
  rw [heq]
  unfold loggerAt slot
  dsimp only
  have hlen : (s.loggers.take count.toNat ++
      List.replicate (count.toNat - s.loggers.length) (none : Option (Logger A))).length =
        count.toNat := by
    rw [List.length_append, List.length_take, List.length_replicate]
    omega
  rw [hlen]
  by_cases hlt : loggerId < count
  · rw [if_pos hlt]
    by_cases hneg : loggerId < 0
    · rw [if_pos (.inl hneg), if_pos (.inl hneg)]
    · rw [if_neg (by omega)]
      by_cases hin : loggerId.toNat < s.loggers.length
      · rw [if_neg (by omega), List.getElem?_append_left (by rw [List.length_take]; omega),
          List.getElem?_take_of_lt (by omega)]
      · rw [if_pos (.inr (by omega)), List.getElem?_append_right (by rw [List.length_take]; omega),
          List.getElem?_replicate]
        split <;> rfl
  · rw [if_neg hlt, if_pos (.inr (by omega))]
    rfl

theorem sinks_nodup {l : Logger A} (hnodup : s.owned.Nodup) (h : s.loggerAt loggerId = some l) :
    l.sinks.Nodup := by
  obtain ⟨before, after, hloggers, -, -⟩ := slot_split (loggerAt_eq_some h)
  rw [owned, hloggers, List.flatMap_append, List.flatMap_cons] at hnodup
  exact (List.nodup_append.mp (List.nodup_append.mp hnodup).2.1).1

theorem taps_addSink (l : Logger A) (sink : Sink) (levelFilter : Int) :
    (l.addSink sink levelFilter).taps = l.taps ++ [(sink, levelFilter)] := by
  unfold Logger.taps Logger.addSink
  exact List.zip_append l.length_eq

end Slots

/-! ## The core refines its wiring -/

/-- The core does what the wiring says. -/
structure Sim (w : Wiring A) (s : LogCore A) : Prop where
  count : w.count = s.loggers.length
  maxLogSize : s.maxLogSize = w.maxLogSize
  pos : 0 < s.maxLogSize
  size : s.maxLogSize < 2 ^ 31
  sound : ∀ loggerId l, s.loggerAt loggerId = some l → l.Sound
  rules : ∀ loggerId, w.rules loggerId = (s.loggerAt loggerId).map Logger.rules
  taps : ∀ sink loggerId levelFilter, w.taps sink = some (loggerId, levelFilter) ↔
    ∃ l, s.loggerAt loggerId = some l ∧ (sink, levelFilter) ∈ l.taps

section Refinement

variable {vsnprintf : Vsnprintf A} {w : Wiring A} {s s' : LogCore A} {loggerId level : Int} {sink : Sink}
  {l : Logger A}

theorem loggerAt_init (A : Type) (loggerId : Int) : (init A).loggerAt loggerId = none := by
  have hinit : init A = ⟨[none], 4096⟩ := rfl
  rw [hinit]
  unfold loggerAt slot
  split
  · rfl
  · next hrange =>
    have hzero : loggerId.toNat = 0 := by
      simp at hrange
      omega
    rw [hzero]
    rfl

theorem sim_init (A : Type) : Sim (Wiring.init A) (init A) where
  count := rfl
  maxLogSize := rfl
  pos := show (0 : Int) < 4096 by decide
  size := show (4096 : Int) < 2 ^ 31 by decide
  sound loggerId l h := by
    rw [loggerAt_init] at h
    cases h
  rules loggerId := by
    rw [loggerAt_init]
    rfl
  taps sink loggerId levelFilter := by
    constructor
    · intro h
      cases h
    · rintro ⟨l, hl, -⟩
      rw [loggerAt_init] at hl
      cases hl

theorem mem_sinks_of_taps {levelFilter : Int} (h : (sink, levelFilter) ∈ l.taps) : sink ∈ l.sinks := by
  rw [← map_taps]
  exact List.mem_map.mpr ⟨_, h, rfl⟩

/-- What the loop of a logger gives a sink is what the wiring lets it hear. -/
theorem Sim.given_loop (hsim : Sim w s) (hnodup : s.owned.Nodup) (hl : s.loggerAt loggerId = some l)
    (text : List UInt8 × Int) :
    given sink (if level < l.levelFilter then [] else Logger.logLoop level text l.taps none) =
      ((w.listens sink loggerId level).map fun _ => visible text).toList := by
  have hrules : w.rules loggerId = some l.rules := by rw [hsim.rules, hl]; rfl
  unfold Wiring.listens
  rw [hrules]
  by_cases hlevel : level < l.levelFilter
  · rw [if_pos hlevel]
    have hle : ¬ l.rules.levelFilter ≤ level := Int.not_le.mpr hlevel
    cases htap : w.taps sink with
    | none => rfl
    | some tap =>
      dsimp only
      rw [if_neg fun h => hle h.2.1]
      rfl
  · rw [if_neg hlevel]
    have hle : l.rules.levelFilter ≤ level := Int.not_lt.mp hlevel
    have hloop : (∀ levelFilter, w.taps sink ≠ some (loggerId, levelFilter)) →
        given sink (Logger.logLoop level text l.taps none) = [] := by
      intro hnone
      refine given_of_not_mem (.inl rfl) fun hmem => ?_
      obtain ⟨⟨sink', levelFilter⟩, htap, rfl⟩ := List.mem_map.mp hmem
      exact hnone levelFilter ((hsim.taps _ _ _).mpr ⟨l, hl, htap⟩)
    cases htap : w.taps sink with
    | none => exact hloop (by simp [htap])
    | some tap =>
      obtain ⟨loggerId', levelFilter⟩ := tap
      dsimp only
      by_cases hid : loggerId' = loggerId
      · subst hid
        obtain ⟨l', hl', hmem⟩ := (hsim.taps _ _ _).mp htap
        obtain rfl := Option.some.inj (hl'.symm.trans hl)
        rw [given_of_mem (.inl rfl) (by rw [map_taps]; exact sinks_nodup hnodup hl) hmem]
        by_cases hheard : level < levelFilter
        · rw [if_pos hheard, if_neg fun h => absurd h.2.2 (Int.not_le.mpr hheard)]
          rfl
        · rw [if_neg hheard, if_pos ⟨rfl, hle, Int.not_lt.mp hheard⟩]
          rfl
      · rw [hloop fun levelFilter' h => hid (by
          rw [htap] at h
          exact congrArg Prod.fst (Option.some.inj h)), if_neg fun h => hid h.1]
        rfl

/-- The rules that a sink listens to are those of the logger. -/
theorem Sim.map_listens {β : Type} (hsim : Sim w s) (hl : s.loggerAt loggerId = some l) (f : Rules A → β) :
    ((w.listens sink loggerId level).map fun _ => f l.rules) =
      (w.listens sink loggerId level).map f := by
  have hrules : w.rules loggerId = some l.rules := by rw [hsim.rules, hl]; rfl
  refine Option.map_congr fun r hr => ?_
  unfold Wiring.listens at hr
  rw [hrules] at hr
  split at hr
  · next r' _ _ hr' _ =>
    cases hr'
    split at hr
    · exact congrArg f (Option.some.inj hr)
    · cases hr
  · cases hr

/-! ## One call -/

theorem given_destruct (sink : Sink) (l : Logger A) : given sink l.destruct = [] := by
  refine List.filterMap_eq_nil_iff.mpr fun o ho => ?_
  obtain ⟨sink', -, rfl⟩ := List.mem_map.mp ho
  rfl

theorem Sim.setMaxLoggerCount (hsim : Sim w s) (count : Int) :
    Sim (w.step (.setMaxLoggerCount count)) (s.setMaxLoggerCount count).1 ∧
      ∀ sink, given sink (s.setMaxLoggerCount count).2 = [] := by
  by_cases hcount : count < 0
  · have hw : w.step (.setMaxLoggerCount count) = w := if_pos hcount
    have hs : s.setMaxLoggerCount count = (s, []) := if_pos hcount
    rw [hw, hs]
    exact ⟨hsim, fun _ => rfl⟩
  · have hat : ∀ loggerId, (s.setMaxLoggerCount count).1.loggerAt loggerId =
        if loggerId < count then s.loggerAt loggerId else none := fun _ => loggerAt_resize s hcount
    have hw : w.step (.setMaxLoggerCount count) = { w with
        count := count.toNat
        rules := fun id => if id < count then w.rules id else none
        taps := fun sink => (w.taps sink).filter fun tap => tap.1 < count } := if_neg hcount
    have hs : s.setMaxLoggerCount count = (({ s with
        loggers := s.loggers.take count.toNat ++
          List.replicate (count.toNat - s.loggers.length) none } : LogCore A), _) := if_neg hcount
    refine ⟨?_, fun sink => ?_⟩
    · rw [hw]
      refine ⟨?_, ?_, ?_, ?_, ?_, ?_, ?_⟩
      · rw [hs]
        dsimp only
        rw [List.length_append, List.length_take, List.length_replicate]
        omega
      · rw [hs]
        exact hsim.maxLogSize
      · rw [hs]
        exact hsim.pos
      · rw [hs]
        exact hsim.size
      · intro loggerId l hl
        rw [hat] at hl
        split at hl
        · exact hsim.sound loggerId l hl
        · cases hl
      · intro loggerId
        rw [hat]
        dsimp only
        rw [hsim.rules]
        split <;> rfl
      · intro sink loggerId levelFilter
        dsimp only
        rw [Option.filter_eq_some_iff, hsim.taps, hat, decide_eq_true_iff]
        constructor
        · rintro ⟨⟨l, hl, hmem⟩, hlt⟩
          exact ⟨l, (if_pos hlt).trans hl, hmem⟩
        · rintro ⟨l, hl, hmem⟩
          split at hl
          · next hlt => exact ⟨⟨l, hl, hmem⟩, hlt⟩
          · cases hl
    · rw [hs]
      refine List.filterMap_eq_nil_iff.mpr fun o ho => ?_
      obtain ⟨logger, -, ho⟩ := List.mem_flatMap.mp ho
      cases logger with
      | none => cases ho
      | some l => exact List.filterMap_eq_nil_iff.mp (given_destruct sink l) o ho

theorem Sim.setMaxLogSize (hsim : Sim w s) {size : Int} (hsize : size < 2 ^ 31) :
    Sim (w.step (.setMaxLogSize size)) (s.setMaxLogSize size) := by
  by_cases hle : size ≤ 0
  · have hw : w.step (.setMaxLogSize size) = w := if_pos hle
    have hs : s.setMaxLogSize size = s := if_pos hle
    rw [hw, hs]
    exact hsim
  · have hw : w.step (.setMaxLogSize size) = { w with maxLogSize := size.toNat } := if_neg hle
    have hs : s.setMaxLogSize size = { s with maxLogSize := size } := if_neg hle
    rw [hw, hs]
    exact ⟨hsim.count, (Int.toNat_of_nonneg (show 0 ≤ size by omega)).symm, Int.not_le.mp hle, hsize, hsim.sound,
      hsim.rules, hsim.taps⟩

/-- A slot is written: what is to be shown of the new logger. -/
theorem Sim.setSlot (hsim : Sim w s) {logger logger' : Option (Logger A)} {w' : Wiring A}
    (h : s.slot loggerId = some logger) (hcount : w'.count = w.count)
    (hmax : w'.maxLogSize = w.maxLogSize) (hsound : ∀ l ∈ logger', l.Sound)
    (hrules : w'.rules = Function.update w.rules loggerId (logger'.map Logger.rules))
    (htaps : ∀ sink loggerId' levelFilter, w'.taps sink = some (loggerId', levelFilter) ↔
      if loggerId' = loggerId then ∃ l, logger' = some l ∧ (sink, levelFilter) ∈ l.taps
      else w.taps sink = some (loggerId', levelFilter)) :
    Sim w' (s.setSlot loggerId logger') where
  count := by
    obtain ⟨before, after, hloggers, -, hset⟩ := slot_split h
    rw [hcount, hsim.count, hset, hloggers, List.length_append, List.length_append, List.length_cons,
      List.length_cons]
  maxLogSize := hsim.maxLogSize.trans (congrArg Nat.cast hmax.symm)
  pos := hsim.pos
  size := hsim.size
  sound loggerId' l hl := by
    rw [loggerAt_setSlot h] at hl
    split at hl
    · exact hsound l hl
    · exact hsim.sound loggerId' l hl
  rules loggerId' := by
    rw [loggerAt_setSlot h, hrules]
    by_cases hid : loggerId' = loggerId
    · subst hid
      rw [Function.update_self, if_pos rfl]
    · rw [Function.update_of_ne hid, if_neg hid]
      exact hsim.rules loggerId'
  taps sink loggerId' levelFilter := by
    rw [htaps, loggerAt_setSlot h]
    by_cases hid : loggerId' = loggerId
    · rw [if_pos hid, if_pos hid]
    · rw [if_neg hid, if_neg hid]
      exact hsim.taps sink loggerId' levelFilter

theorem Sim.registerLogger (hsim : Sim w s) {formatter : Option (LogFormatter A)} {levelFilter : Int}
    (hf : ∀ f ∈ formatter, Honest f) :
    Sim (w.step (.registerLogger loggerId formatter levelFilter))
      (s.registerLogger loggerId formatter levelFilter).1 := by
  have hrange := slot_isSome s loggerId
  have hfree : 0 ≤ loggerId ∧ loggerId < w.count ∧ (w.rules loggerId).isNone ↔
      s.slot loggerId = some none := by
    rw [hsim.rules, hsim.count, ← and_assoc, ← hrange]
    unfold loggerAt
    cases s.slot loggerId with
    | none => simp
    | some logger => cases logger <;> simp
  unfold LogCore.registerLogger
  split
  · next hslot =>
    have hw : w.step (.registerLogger loggerId formatter levelFilter) = w :=
      if_neg fun h => by rw [hfree, hslot] at h; cases h
    rw [hw]
    exact hsim
  · next hslot =>
    have hw : w.step (.registerLogger loggerId formatter levelFilter) = w :=
      if_neg fun h => by rw [hfree, hslot] at h; cases h
    rw [hw]
    exact hsim
  · next hslot =>
    have hw : w.step (.registerLogger loggerId formatter levelFilter) = { w with
        rules := Function.update w.rules loggerId (some ⟨formatter, levelFilter, w.maxLogSize⟩) } :=
      if_pos (hfree.mpr hslot)
    have hmax : (if s.maxLogSize ≤ 0 then 1 else s.maxLogSize) = s.maxLogSize :=
      if_neg (Int.not_le.mpr hsim.pos)
    have hnew : (Logger.new formatter levelFilter s.maxLogSize).rules =
        ⟨formatter, levelFilter, w.maxLogSize⟩ := by
      unfold Logger.rules Logger.new
      dsimp only
      rw [hmax, hsim.maxLogSize, Int.toNat_natCast]
    have hnone : s.loggerAt loggerId = none := congrArg Option.join hslot
    rw [hw]
    refine hsim.setSlot hslot rfl rfl (fun l hl => ?_) (by rw [Option.map_some, hnew]) ?_
    · cases hl
      refine ⟨?_, hf⟩
      unfold Logger.new
      dsimp only
      rw [hmax]
      exact hsim.size
    · intro sink loggerId' levelFilter'
      by_cases hid : loggerId' = loggerId
      · rw [if_pos hid, hid, hsim.taps, hnone]
        simp [Logger.new, Logger.taps]
      · rw [if_neg hid]

theorem Sim.removeLogger (hsim : Sim w s) :
    Sim (w.step (.removeLogger loggerId)) (s.removeLogger loggerId).1 ∧
      ∀ sink, given sink (s.removeLogger loggerId).2 = [] := by
  have htaps : ∀ sink loggerId' levelFilter, (w.step (.removeLogger loggerId)).taps sink =
      some (loggerId', levelFilter) ↔ w.taps sink = some (loggerId', levelFilter) ∧ loggerId' ≠ loggerId := by
    intro sink loggerId' levelFilter
    refine Option.filter_eq_some_iff.trans ?_
    rw [decide_eq_true_iff]
  unfold LogCore.removeLogger
  split
  · next hnone =>
    refine ⟨⟨hsim.count, hsim.maxLogSize, hsim.pos, hsim.size, hsim.sound, fun loggerId' => ?_, ?_⟩,
      fun _ => rfl⟩
    · show Function.update w.rules loggerId none loggerId' = _
      by_cases hid : loggerId' = loggerId
      · subst hid
        rw [Function.update_self, hnone]
        rfl
      · rw [Function.update_of_ne hid]
        exact hsim.rules loggerId'
    · intro sink loggerId' levelFilter
      rw [htaps, hsim.taps, and_iff_left_iff_imp]
      rintro ⟨l, hl, -⟩ rfl
      cases hl.symm.trans hnone
  · next logger hlogger =>
    refine ⟨hsim.setSlot (loggerAt_eq_some hlogger) rfl rfl (by simp) rfl ?_,
      fun sink => given_destruct sink logger⟩
    intro sink loggerId' levelFilter
    rw [htaps]
    by_cases hid : loggerId' = loggerId
    · simp [hid]
    · simp [hid]

theorem Sim.addSink (hsim : Sim w s) {sink : Sink} {levelFilter : Int}
    (hfresh : ∀ l, s.loggerAt loggerId = some l → sink ∉ s.owned) :
    Sim (w.step (.addSink loggerId sink levelFilter)) (s.addSink loggerId sink levelFilter).1 := by
  unfold LogCore.addSink
  split
  · next hnone =>
    have hw : w.step (.addSink loggerId sink levelFilter) = w := if_neg (by rw [hsim.rules, hnone]; simp)
    rw [hw]
    exact hsim
  · next l hl =>
    have hw : w.step (.addSink loggerId sink levelFilter) =
        { w with taps := Function.update w.taps sink (some (loggerId, levelFilter)) } :=
      if_pos (by rw [hsim.rules, hl]; rfl)
    have hsound := hsim.sound loggerId l hl
    rw [hw]
    refine hsim.setSlot (loggerAt_eq_some hl) rfl rfl (fun l' hl' => ?_) ?_ ?_
    · cases hl'
      exact ⟨hsound.size, hsound.honest⟩
    · refine (Function.update_eq_self_iff.mpr ?_).symm
      rw [hsim.rules, hl]
      rfl
    · intro sink' loggerId' levelFilter'
      show Function.update w.taps sink (some (loggerId, levelFilter)) sink' = _ ↔ _
      have hnone : ∀ id l filter, s.loggerAt id = some l → (sink, filter) ∉ l.taps :=
        fun id l' filter hl' hmem => hfresh l hl (sinks_subset hl' (mem_sinks_of_taps hmem))
      by_cases hsink : sink' = sink
      · subst hsink
        rw [Function.update_self]
        by_cases hid : loggerId' = loggerId
        · subst hid
          have hold := hnone loggerId' l levelFilter' hl
          simp [taps_addSink, hold, eq_comm]
        · rw [if_neg hid, hsim.taps]
          constructor
          · intro h
            exact absurd (congrArg Prod.fst (Option.some.inj h)).symm hid
          · rintro ⟨l', hl', hmem⟩
            exact absurd hmem (hnone _ l' _ hl')
      · rw [Function.update_of_ne hsink]
        by_cases hid : loggerId' = loggerId
        · subst hid
          rw [if_pos rfl, hsim.taps, hl]
          simp [taps_addSink, hsink]
        · rw [if_neg hid]

theorem Sim.setLevelFilter (hsim : Sim w s) {levelFilter : Int} :
    Sim (w.step (.setLevelFilter loggerId levelFilter)) (s.setLevelFilter loggerId levelFilter) := by
  unfold LogCore.setLevelFilter
  split
  · next hnone =>
    have hrules : w.rules loggerId = none := by rw [hsim.rules, hnone]; rfl
    have hw : w.step (.setLevelFilter loggerId levelFilter) = w := by
      show { w with rules := Function.update w.rules loggerId _ } = w
      rw [hrules, Option.map_none, ← hrules, Function.update_eq_self]
    rw [hw]
    exact hsim
  · next l hl =>
    have hsound := hsim.sound loggerId l hl
    refine hsim.setSlot (loggerAt_eq_some hl) rfl rfl (fun l' hl' => ?_) ?_ ?_
    · cases hl'
      exact ⟨hsound.size, hsound.honest⟩
    · show Function.update w.rules loggerId _ = _
      rw [hsim.rules, hl]
      rfl
    · intro sink loggerId' levelFilter'
      show w.taps sink = _ ↔ _
      by_cases hid : loggerId' = loggerId
      · subst hid
        rw [if_pos rfl, hsim.taps, hl]
        simp [Logger.setLevelFilter, Logger.taps]
      · rw [if_neg hid]

/-- What is given by a call that logs is what the wiring lets a sink hear of it. -/
theorem Sim.given_log (hsim : Sim w s) (hnodup : s.owned.Nodup) {text : Logger A → List UInt8 × Int}
    {f : Rules A → List UInt8} (sink : Sink)
    (htext : ∀ l, s.loggerAt loggerId = some l → visible (text l) = f l.rules) :
    given sink (match s.loggerAt loggerId with
      | none => []
      | some l => if level < l.levelFilter then [] else Logger.logLoop level (text l) l.taps none) =
      ((w.listens sink loggerId level).map f).toList := by
  cases hl : s.loggerAt loggerId with
  | none =>
    have hrules : w.rules loggerId = none := by rw [hsim.rules, hl]; rfl
    unfold Wiring.listens
    rw [hrules]
    rfl
  | some l =>
    dsimp only
    rw [hsim.given_loop hnodup hl, htext l hl, hsim.map_listens hl]

theorem Sim.log (hsim : Sim w s) (hnodup : s.owned.Nodup) (message : Message A) (sink : Sink) :
    given sink (s.log vsnprintf loggerId message) =
      (w.heard vsnprintf sink (.log loggerId message)).toList :=
  hsim.given_log hnodup (f := (·.text vsnprintf message)) sink
    fun l hl => visible_text (hsim.sound loggerId l hl) message

theorem Sim.plainLog (hsim : Sim w s) (hnodup : s.owned.Nodup) (format : String) (args : A)
    (sink : Sink) :
    given sink (s.plainLog vsnprintf loggerId level format args) =
      (w.heard vsnprintf sink (.plainLog loggerId level format args)).toList :=
  hsim.given_log hnodup (f := (·.plainText vsnprintf format args)) sink
    fun l hl => visible_plainText (hsim.sound loggerId l hl) format args

variable {move : Op A × List Output} {moves : List (Op A × List Output)}

/-- A call keeps the core and its wiring together. -/
theorem Sim.step (hsim : Sim w s) (hnodup : (s.owned ++ addedBy move).Nodup) (hop : move.1.Honest)
    (h : Steps vsnprintf s move s') :
    Sim (w.step move.1) s' ∧
      ∀ sink, given sink move.2 = (w.heard vsnprintf sink move.1).toList := by
  obtain ⟨op, outs⟩ := move
  have hs' : s' = (s.step vsnprintf op).1 := (congrArg Prod.fst h).symm
  have houts : outs = (s.step vsnprintf op).2 := (congrArg Prod.snd h).symm
  subst hs' houts
  cases op with
  | setMaxLoggerCount count => exact hsim.setMaxLoggerCount count
  | setMaxLogSize size => exact ⟨hsim.setMaxLogSize hop, fun _ => rfl⟩
  | registerLogger loggerId formatter levelFilter => exact ⟨hsim.registerLogger hop, fun _ => rfl⟩
  | removeLogger loggerId => exact hsim.removeLogger
  | addSink loggerId sink levelFilter =>
    refine ⟨hsim.addSink fun l hl hmem => ?_, fun _ => rfl⟩
    have hadded : addedBy ((.addSink loggerId sink levelFilter : Op A),
        (s.step vsnprintf (.addSink loggerId sink levelFilter)).2) = [sink] := by
      refine if_pos ?_
      show Output.returned true ∈ [.returned (s.addSink loggerId sink levelFilter).2]
      unfold LogCore.addSink
      rw [hl]
      exact List.mem_singleton_self _
    have hdisjoint := (List.nodup_append.mp hnodup).2.2 sink hmem sink
    exact hdisjoint (hadded.symm ▸ List.mem_singleton_self sink) rfl
  | setLevelFilter loggerId levelFilter => exact ⟨hsim.setLevelFilter, fun _ => rfl⟩
  | log loggerId message => exact ⟨hsim, hsim.log (List.nodup_append.mp hnodup).1 message⟩
  | plainLog loggerId level format args =>
    exact ⟨hsim, hsim.plainLog (List.nodup_append.mp hnodup).1 format args⟩

/-! ## No text goes beyond its buffer -/

/-- The sizes that sinks are given are smaller than the buffers. -/
def Inside (outs : List Output) : Prop :=
  ∀ sink buffer size, .log sink buffer size ∈ outs → size < buffer.length

theorem inside_of_given {outs : List Output} (h : ∀ sink, given sink outs = []) : Inside outs := by
  intro sink buffer size ho
  have hnone := List.filterMap_eq_nil_iff.mp (h sink) _ ho
  dsimp only at hnone
  rw [if_pos rfl] at hnone
  cases hnone

theorem inside_loop {text : List UInt8 × Int} (level : Int) (taps : List (Sink × Int))
    (h : (text.2 % 2 ^ 64).toNat < text.1.length) : Inside (Logger.logLoop level text taps none) := by
  intro sink buffer size ho
  rcases mem_logLoop (.inl rfl) ho with ho | ⟨sink', -, ho⟩ <;> cases ho
  exact h

theorem inside_nil : Inside [] := by
  intro sink buffer size ho
  cases ho

theorem plainText_inside (hl : l.Sound) (hv : HonestLibrary vsnprintf) (format : String) (args : A) :
    ((Logger.plainText vsnprintf l.maxLogSize format args).2 % 2 ^ 64).toNat <
      (Logger.plainText vsnprintf l.maxLogSize format args).1.length :=
  size_lt l hl.size (hv _ _ _) (by split <;> omega)

theorem text_inside (hl : l.Sound) (hv : HonestLibrary vsnprintf) (message : Message A) :
    ((Logger.text vsnprintf l.formatter l.maxLogSize message).2 % 2 ^ 64).toNat <
      (Logger.text vsnprintf l.formatter l.maxLogSize message).1.length := by
  unfold Logger.text
  cases hf : l.formatter with
  | none => exact plainText_inside hl hv message.format message.args
  | some formatter =>
    obtain ⟨hlen, hcount⟩ := hl.honest formatter hf l.maxLogSize.toNat message
    refine size_lt l hl.size hlen ?_
    rw [Int.bmod_eq_of_le (by omega) (by omega)]
    omega

theorem Sim.inside (hsim : Sim w s) (hv : HonestLibrary vsnprintf)
    (hnodup : (s.owned ++ addedBy move).Nodup) (hop : move.1.Honest) (h : Steps vsnprintf s move s') :
    Inside move.2 := by
  have hgiven := (hsim.step hnodup hop h).2
  obtain ⟨op, outs⟩ := move
  have houts : outs = (s.step vsnprintf op).2 := (congrArg Prod.snd h).symm
  subst houts
  cases op with
  | log loggerId message =>
    show Inside (s.log vsnprintf loggerId message)
    unfold LogCore.log Logger.log
    split
    · exact inside_nil
    · next l hl =>
      split
      · exact inside_nil
      · exact inside_loop _ _ (text_inside (hsim.sound loggerId l hl) hv message)
  | plainLog loggerId level format args =>
    show Inside (s.plainLog vsnprintf loggerId level format args)
    unfold LogCore.plainLog Logger.plainLog
    split
    · exact inside_nil
    · next l hl =>
      split
      · exact inside_nil
      · exact inside_loop _ _ (plainText_inside (hsim.sound loggerId l hl) hv format args)
  | setMaxLoggerCount | setMaxLogSize | registerLogger | removeLogger | addSink | setLevelFilter =>
    exact inside_of_given hgiven

/-! ## Runs -/

/-- What a sink hears of the calls is what it is given. -/
theorem Sim.run (hsim : Sim w s) (hv : HonestLibrary vsnprintf)
    (hnodup : (s.owned ++ added moves).Nodup) (hop : ∀ move ∈ moves, move.1.Honest)
    (h : Run (Steps vsnprintf) s moves s') :
    (∀ sink, moves.flatMap (fun move => given sink move.2) =
        w.hears vsnprintf sink (moves.map Prod.fst)) ∧ ∀ move ∈ moves, Inside move.2 := by
  induction h generalizing w with
  | nil => exact ⟨fun _ => rfl, by simp⟩
  | @cons s move s₁ moves s' hstep _ ih =>
    obtain ⟨hfirst, hrest⟩ := List.forall_mem_cons.mp hop
    have hadded : added (move :: moves) = addedBy move ++ added moves := List.flatMap_cons
    rw [hadded, ← List.append_assoc] at hnodup
    have hnow := (List.nodup_append.mp hnodup).1
    obtain ⟨hsim₁, hgiven⟩ := hsim.step hnow hfirst hstep
    -- what is left of the books has no sink twice either
    have hlater : (s₁.owned ++ added moves).Nodup := by
      have hbooks := (step_balances hstep).append_right (added moves)
      rw [List.append_assoc (deletedBy move.2)] at hbooks
      exact (List.nodup_append.mp (hbooks.nodup_iff.mp hnodup)).2.1
    obtain ⟨hhears, hinside⟩ := ih hsim₁ hlater hrest
    refine ⟨fun sink => ?_, List.forall_mem_cons.mpr ⟨hsim.inside hv hnow hfirst hstep, hinside⟩⟩
    rw [List.flatMap_cons, hgiven, hhears]
    rfl

/-- In every run each sink is given the texts that the wiring lets it hear, in order, and
never more than a buffer holds. -/
theorem sinks_hear (hv : HonestLibrary vsnprintf) (h : Run (Steps vsnprintf) (init A) moves s)
    (honce : (added moves).Nodup) (hop : ∀ move ∈ moves, move.1.Honest) :
    (∀ sink, moves.flatMap (fun move => given sink move.2) =
        (Wiring.init A).hears vsnprintf sink (moves.map Prod.fst)) ∧
      ∀ move ∈ moves, Inside move.2 :=
  (sim_init A).run hv (by
    have hnone : (init A).owned = [] := rfl
    rwa [hnone, List.nil_append]) hop h

/-- Of two texts the second is loud enough for the sink, and is cut. -/
theorem sinks_hear_cut : ∃ (moves : _) (s : LogCore Unit),
    Run (Steps fun size _ _ => (List.replicate size 65, 9)) (init Unit) moves s ∧
      moves.flatMap (fun move => given 7 move.2) = [[65, 65, 65]] := by
  have hrun : Run (Steps fun size _ _ => (List.replicate size 65, 9)) (init Unit) _ _ :=
    .cons (steps_step _ _ (.setMaxLogSize 4)) <| .cons (steps_step _ _ (.registerLogger 0 none 0)) <|
      .cons (steps_step _ _ (.addSink 0 7 2)) <| .cons (steps_step _ _ (.plainLog 0 1 "" ())) <|
      .cons (steps_step _ _ (.plainLog 0 2 "" ())) .nil
  refine ⟨_, _, hrun, ?_⟩
  have hheard := (sinks_hear (fun _ _ _ => List.length_replicate) hrun (by decide) ?_).1 7
  · rw [hheard]
    decide
  · simp [Op.Honest]

end Refinement

end LogCore

end Brickred
