import Brickred.Loop.IOService
import Brickred.Timer.Runs

/-!
# How long the loop sleeps

`getNextTimeoutMillisecond` looks at nanoseconds first and then at a distance of
truncated milliseconds, `checkTimeout` at truncated milliseconds alone. They agree as long
as that distance does not overflow: what the first returns is how long the second has
nothing to do, and `epoll_wait` waits that long, or 35 minutes.
-/

namespace Brickred

namespace TimerHeap

variable {C : Type} {h : TimerHeap C} {now : Timestamp}

/-- `checkTimeout(now)` invokes a callback. -/
def Fires (h : TimerHeap C) (now : Timestamp) : Prop :=
  ∃ h' firing, h.checkTimeout now = some (h', some firing)

theorem fires_iff (hi : h.Inv) : h.Fires now ↔ ∃ t ∈ h.entries, Due now t := by
  rcases checkTimeout_spec hi now with ⟨e, hnone⟩ | ⟨h', t, l, e, -, hdue, hperm, -⟩
  · refine ⟨fun ⟨h', firing, hfires⟩ => ?_, fun ⟨t, ht, hdue⟩ => absurd hdue (hnone t ht)⟩
    rw [e] at hfires
    cases hfires
  · exact ⟨fun _ => ⟨t, hperm.mem_iff.mpr (.head _), hdue⟩, fun _ => ⟨h', _, e⟩⟩

/-- What is left until the first deadline fits the integers it is computed in. -/
def FirstFits (h : TimerHeap C) (now : Timestamp) : Prop :=
  ∀ t ∈ h.entries, (∀ u ∈ h.entries, t.timestamp.nanos ≤ u.timestamp.nanos) →
    now.nanos ≤ t.timestamp.nanos → now.DistanceFits t.timestamp

/-- What `getNextTimeoutMillisecond` computes from the first deadline. -/
theorem getNextTimeoutMillisecond_spec (hi : h.Inv) (hfits : h.FirstFits now) :
    h.getNextTimeoutMillisecond now = some (-1) ∧ h.entries = [] ∨
    ∃ t ∈ h.entries, (∀ u ∈ h.entries, t.timestamp.millis ≤ u.timestamp.millis) ∧
      h.getNextTimeoutMillisecond now = some (max 0 (t.timestamp.millis - now.millis)) := by
  cases htop : h.minHeapTop with
  | none => exact .inl ⟨by rw [getNextTimeoutMillisecond, htop], hi.top_none htop⟩
  | some a =>
    obtain ⟨hmem, t, ht, hmin⟩ := hi.top htop
    have hd : h.getNextTimeoutMillisecond now =
        some (if t.timestamp.lt now then 0 else now.distanceMillisecond t.timestamp) := by
      simp only [getNextTimeoutMillisecond, htop, ht, Option.bind_eq_bind, Option.bind_some]
    have hentry : t.unplaced ∈ h.entries := mem_entries.mpr ⟨a, t, hmem, ht, rfl⟩
    refine .inr ⟨t.unplaced, hentry, fun u hu => Timestamp.millis_mono (hmin u hu), ?_⟩
    rw [hd]
    show some _ = some (max 0 (t.timestamp.millis - now.millis))
    congr 1
    split
    next hlt =>
      have hle := Timestamp.millis_mono (le_of_lt ((Timestamp.lt_iff _ _).mp hlt))
      omega
    next hle =>
      have hnanos := not_lt.mp (mt (Timestamp.lt_iff t.timestamp now).mpr hle)
      have hmillis := Timestamp.millis_mono hnanos
      have hdistance : now.DistanceFits t.timestamp :=
        hfits t.unplaced hentry hmin hnanos
      rw [Timestamp.distanceMillisecond_eq hdistance]
      omega

/-- While there are timers, `checkTimeout` has something to do from the time on that
`getNextTimeoutMillisecond` returns, and nothing before. -/
theorem getNextTimeoutMillisecond_fires (hi : h.Inv) (hfits : h.FirstFits now) :
    ∃ d, h.getNextTimeoutMillisecond now = some d ∧
      (d = -1 ∧ h.entries = [] ∨
        0 ≤ d ∧ h.entries ≠ [] ∧ ∀ w : Int, 0 ≤ w → (h.Fires (now.add w) ↔ d ≤ w)) := by
  rcases getNextTimeoutMillisecond_spec hi hfits with ⟨e, hnil⟩ | ⟨t, ht, hmin, e⟩
  · exact ⟨-1, e, .inl ⟨rfl, hnil⟩⟩
  · refine ⟨_, e, .inr ⟨Int.le_max_left _ _, List.ne_nil_of_mem ht, fun w hw => ?_⟩⟩
    rw [fires_iff hi]
    have hadd := Timestamp.millis_add now w
    constructor
    · rintro ⟨u, hu, hdue⟩
      have hle := hmin u hu
      unfold Due at hdue
      omega
    · intro hle
      refine ⟨t, ht, ?_⟩
      unfold Due
      omega

theorem Inv.entries_eq_nil_iff (hi : h.Inv) : h.entries = [] ↔ ∀ id, h.timers id = none := by
  constructor
  · intro hnil id
    by_contra hne
    obtain ⟨t, ht, -⟩ := hi.timers_ne_none_iff.mp hne
    rw [hnil] at ht
    cases ht
  · intro hnone
    refine List.eq_nil_iff_forall_not_mem.mpr fun t ht => ?_
    exact hi.timers_ne_none_iff.mpr ⟨t, ht, rfl⟩ (hnone t.id)

end TimerHeap

namespace IOService

variable {C : Type} {ops : List (TimerOp (Option C))} {r : TimerRun (Option C)}
  {firings : List (TimerHeap.Firing (Option C))}

/-- In every heap that is reached, as long as the time to its first deadline fits, the next
timeout is -1 if there is no timer, 0 if `checkTimeout` would invoke a callback now, and
else the number of milliseconds after which it would, and a millisecond before would not.
So the loop does not sleep past a deadline, and when it wakes up by itself there is
something to do or 35 minutes are over. -/
theorem epollTimeout_agrees (hrun : TimerRun.init.run ops = some (r, firings)) (now : Timestamp)
    (hfits : r.heap.FirstFits now) :
    ∃ d, r.heap.getNextTimeoutMillisecond now = some d ∧
      (d = -1 ↔ ∀ id, r.heap.timers id = none) ∧
      (d = 0 ↔ r.heap.Fires now) ∧
      (d ≠ -1 → d ≠ 0 →
        0 < d ∧ r.heap.Fires (now.add d) ∧ ¬ r.heap.Fires (now.add (d - 1))) ∧
      ∀ s : IOService C, s.timerHeap = r.heap → ∃ timeout, s.epollTimeout now = some timeout ∧
        (timeout = -1 ↔ ∀ id, r.heap.timers id = none) ∧
        (∀ w : Int, 0 ≤ w → w < timeout → ¬ r.heap.Fires (now.add w)) ∧
        (0 ≤ timeout → r.heap.Fires (now.add timeout) ∨ timeout = 35 * 60 * 1000) := by
  have hi := TimerRun.inv_of_run hrun
  have hnil := hi.entries_eq_nil_iff
  obtain ⟨d, e, hd⟩ := TimerHeap.getNextTimeoutMillisecond_fires hi hfits
  have htimeout : ∀ s : IOService C, s.timerHeap = r.heap → -1 ≤ d →
      s.epollTimeout now = some (min d (35 * 60 * 1000)) := by
    intro s hs hle
    rw [epollTimeout, hs, e, Option.map_some]
    congr 1
    exact Int.bmod_eq_of_le (by omega) (by omega)
  have hzero : now.add 0 = now := now.add_zero
  refine ⟨d, e, ?_⟩
  rcases hd with ⟨rfl, hempty⟩ | ⟨hnonneg, hne, hfires⟩
  · have hnot : ∀ now, ¬ r.heap.Fires now := by
      intro now hfires
      obtain ⟨t, ht, -⟩ := (TimerHeap.fires_iff hi).mp hfires
      rw [hempty] at ht
      cases ht
    refine ⟨iff_of_true rfl (hnil.mp hempty), iff_of_false (by decide) (hnot now),
      fun h => absurd rfl h, fun s hs => ⟨_, htimeout s hs le_rfl, ?_⟩⟩
    exact ⟨iff_of_true rfl (hnil.mp hempty), fun w _ _ => hnot _, fun h => absurd h (by decide)⟩
  · have hsome : ¬ ∀ id, r.heap.timers id = none := fun h => hne (hnil.mpr h)
    refine ⟨iff_of_false (by omega) hsome, ?_, ?_, fun s hs => ⟨_, htimeout s hs (by omega), ?_⟩⟩
    · have h₀ := hfires 0 le_rfl
      rw [hzero] at h₀
      rw [h₀]
      omega
    · intro _ hpos
      refine ⟨by omega, (hfires d hnonneg).mpr le_rfl, ?_⟩
      rw [hfires (d - 1) (by omega)]
      omega
    · refine ⟨iff_of_false (by omega) hsome, ?_, ?_⟩
      · intro w hw hlt
        rw [hfires w hw]
        omega
      · intro hle
        rw [hfires _ hle]
        omega

/-- A timer of 90 minutes. -/
theorem epollTimeout_agrees_long : ∃ r : TimerRun (Option Unit),
    TimerRun.init.run [.addTimer .zero 5400000 (some ()) 1] = some (r, []) ∧
      r.heap.getNextTimeoutMillisecond .zero = some 5400000 ∧
      r.heap.Fires (Timestamp.zero.add 5400000) := by
  obtain ⟨r, hrun, hd, hentries⟩ : ∃ r : TimerRun (Option Unit),
      TimerRun.init.run [.addTimer .zero 5400000 (some ()) 1] = some (r, []) ∧
        r.heap.getNextTimeoutMillisecond .zero = some 5400000 ∧
        r.heap.entries.map (·.timestamp) = [Timestamp.zero.add 5400000] := ⟨_, rfl, rfl, rfl⟩
  have hfits : r.heap.FirstFits .zero := by
    intro t ht _ _
    have hstamp := List.mem_map_of_mem (f := (·.timestamp)) ht
    rw [hentries, List.mem_singleton] at hstamp
    rw [hstamp]
    decide
  obtain ⟨d, e, -, -, hfires, -⟩ := epollTimeout_agrees hrun .zero hfits
  obtain rfl : d = 5400000 := Option.some.inj (e.symm.trans hd)
  exact ⟨r, hrun, hd, (hfires (by decide) (by decide)).2.1⟩

/-- A deadline that is further away than `int64_t` counts milliseconds: the loop would
sleep for ever, with a timer in the heap. -/
theorem epollTimeout_wraps : ∃ r : TimerRun (Option Unit),
    TimerRun.init.run [.addTimer .zero (2 ^ 63 - 1) (some ()) 1] = some (r, []) ∧
      r.heap.getNextTimeoutMillisecond (Timestamp.zero.add (-(2 ^ 63 - 1))) = some (-2) ∧
      ∀ s : IOService Unit, s.timerHeap = r.heap →
        s.epollTimeout (Timestamp.zero.add (-(2 ^ 63 - 1))) = some (-2) := by
  refine ⟨_, rfl, rfl, fun s hs => ?_⟩
  rw [epollTimeout, hs]
  rfl

end IOService

end Brickred
