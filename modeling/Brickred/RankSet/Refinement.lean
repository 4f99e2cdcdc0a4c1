import Brickred.RankSet.World

/-!
# What a `RankSet` is: the main results

For every program over any number of `RankSet`s:

- `run_refines`: it never goes wrong, and every object shows its reference list,
  answers each call like it, and is untouched by calls on other objects;
- `run_repInvariant`: every object satisfies the representation invariant of a
  counted red-black tree, so its height is logarithmic;
- `run_select_rank`: `select` and `rank` are the order statistics.
-/

namespace Brickred

open RedBlack HeapTree Function

variable {T : Type} [Inhabited T] {lt : T → T → Bool}

/-! ## Runs simulate -/

/-- Every defined call is a call on live objects. -/
theorem ref_step_of_step {w : World T} {ref : Ref T} {ts : Nat → RBTree (Item T)} {op : Op T}
    {x : World T × Result} (h : Sim lt w ref ts) (hx : w.step lt op = some x) :
    ∃ ref', ref.step lt op = some ref' := by
  have hlive : ∀ {o s}, w.sets o = some s → ref o = some (values (ts o)) := fun hs => h.ref _ _ hs
  cases op with
  | construct o =>
    cases ho : w.sets o with
    | some s => simp [World.step, ho] at hx
    | none => simp [Ref.step, h.dead o ho]
  | copyConstruct o other | moveConstruct o other =>
    cases ho : w.sets o with
    | some s => simp [World.step, ho] at hx
    | none =>
      cases hs : w.sets other with
      | none => simp [World.step, ho, hs] at hx
      | some s => simp [Ref.step, h.dead o ho, hlive hs]
  | copyAssign o other =>
    cases hs : w.sets o with
    | none => simp [World.step, hs] at hx
    | some s =>
      cases hs' : w.sets other with
      | none =>
        have hne : o ≠ other := by
          rintro rfl
          rw [hs] at hs'
          cases hs'
        simp [World.step, hs, hs', hne] at hx
      | some s' => simp [Ref.step, hlive hs, hlive hs']
  | moveAssign o other | swap o other =>
    cases hs' : w.sets other with
    | none => simp [World.step, hs'] at hx
    | some s' =>
      cases hs : w.sets o with
      | none =>
        have hne : o ≠ other := by
          rintro rfl
          rw [hs] at hs'
          cases hs'
        simp [World.step, RankSet.moveConstruct, hs, hs', hne] at hx
      | some s => simp [Ref.step, hlive hs, hlive hs']
  | clear o | insert o value | eraseValue o value | eraseAt o k | destruct o =>
    cases hs : w.sets o with
    | none => simp [World.step, hs] at hx
    | some s => simp [Ref.step, hlive hs]

variable [SortedList.WeakOrder lt]

theorem step_sim {w : World T} {ref ref' : Ref T} {ts : Nat → RBTree (Item T)} {op : Op T}
    (h : Sim lt w ref ts) (hop : ref.step lt op = some ref') : StepSim lt w ref' ts op := by
  cases op with
  | construct o => exact construct_sim h hop
  | copyConstruct o other => exact copyConstruct_sim h hop
  | moveConstruct o other => exact moveConstruct_sim h hop
  | copyAssign o other => exact copyAssign_sim h hop
  | moveAssign o other => exact moveAssign_sim h hop
  | swap o other => exact swap_sim h hop
  | clear o => exact clear_sim h hop
  | insert o value => exact insert_sim h hop
  | eraseValue o value => exact eraseValue_sim h hop
  | eraseAt o k => exact eraseAt_sim h hop
  | destruct o => exact destruct_sim h hop

/-- A program that is valid on the reference runs, and stays in the simulation. -/
theorem run_sim : ∀ {ops : List (Op T)} {w : World T} {ref ref' : Ref T}
    {ts : Nat → RBTree (Item T)}, Sim lt w ref ts → ref.run lt ops = some ref' →
    ∃ w' ts', w.run lt ops = some w' ∧ Sim lt w' ref' ts'
  | [], w, ref, ref', ts, h, hrun => by
    obtain rfl : ref = ref' := Option.some.inj hrun
    exact ⟨w, ts, rfl, h⟩
  | op :: ops, w, ref, ref', ts, h, hrun => by
    obtain ⟨ref₁, hop, hrun⟩ := Option.bind_eq_some_iff.mp hrun
    obtain ⟨w₁, r, ts₁, e₁, h₁, -⟩ := step_sim h hop
    obtain ⟨w', ts', e', h'⟩ := run_sim h₁ hrun
    exact ⟨w', ts', by simp [World.run, e₁, e'], h'⟩

/-- Every state a program reaches is in the simulation. -/
theorem sim_of_run : ∀ {ops : List (Op T)} {w w' : World T} {ref : Ref T}
    {ts : Nat → RBTree (Item T)}, Sim lt w ref ts → w.run lt ops = some w' →
    ∃ ref' ts', ref.run lt ops = some ref' ∧ Sim lt w' ref' ts'
  | [], w, w', ref, ts, h, hrun => by
    obtain rfl : w = w' := Option.some.inj hrun
    exact ⟨ref, ts, rfl, h⟩
  | op :: ops, w, w', ref, ts, h, hrun => by
    obtain ⟨⟨w₁, r⟩, hstep, hrun⟩ := Option.bind_eq_some_iff.mp hrun
    obtain ⟨ref₁, hop⟩ := ref_step_of_step h hstep
    obtain ⟨w₂, r₂, ts₁, e₁, h₁, -⟩ := step_sim h hop
    obtain ⟨rfl, rfl⟩ : w₁ = w₂ ∧ r = r₂ := by simpa [hstep] using e₁
    obtain ⟨ref', ts', e', h'⟩ := sim_of_run h₁ hrun
    exact ⟨ref', ts', by simp [Ref.run, hop, e'], h'⟩

/-- An object the reference knows at the end of a program exists then. -/
theorem exists_live (lt : T → T → Bool) [SortedList.WeakOrder lt] (ops : List (Op T)) {ref : Ref T}
    (h : Ref.run lt (fun _ => none) ops = some ref) {o : Nat} {l : List T} (ho : ref o = some l) :
    ∃ w s, World.run lt .empty ops = some w ∧ w.sets o = some s := by
  obtain ⟨w, ts, hw, hsim⟩ := run_sim Sim.empty h
  obtain ⟨s, hs, -⟩ := hsim.live ho
  exact ⟨w, s, hw, hs⟩

/-! ## Refinement -/

namespace World

/-- The in-order walk over object `o`, as the iterators and values it visits. -/
def contents (w : World T) (o : Nat) : Option (List (Addr × T)) := do
  (← w.sets o).contents w.mem

/-- Object `o` shows the reference: its walk visits the elements in strictly
increasing order at distinct nodes other than `end()`, and every query answers
like the list. -/
def Shows (lt : T → T → Bool) (w : World T) (o : Nat) : Option (List T) → Prop
  | none => w.sets o = none
  | some l => ∃ s items, w.sets o = some s ∧ s.contents w.mem = some items ∧
      items.map Prod.snd = l ∧ (s.end' :: items.map Prod.fst).Nodup ∧ SortedList.Sorted lt l ∧
      s.size w.mem = some l.length ∧ s.empty w.mem = some (decide (l = [])) ∧
      ∀ value,
        s.find w.mem value = some (iterAt s.end' items (SortedList.find lt value l)) ∧
        s.lowerBound w.mem value = some (iterAt s.end' items (SortedList.lowerBound lt value l)) ∧
        s.upperBound w.mem value = some (iterAt s.end' items (SortedList.upperBound lt value l))

/-- What a call answers, from the walks before and after it. -/
def Answers (lt : T → T → Bool) (w w' : World T) : Op T → Result → Prop
  | .insert o value, r => ∃ s items items' iter, w.sets o = some s ∧ w.contents o = some items ∧
      w'.contents o = some items' ∧
      r = .pair iter (!SortedList.contains lt value (items.map Prod.snd)) ∧
      iter = iterAt s.end' items' (SortedList.find lt value (items'.map Prod.snd)) ∧
      if SortedList.contains lt value (items.map Prod.snd) then items' = items
      else ∃ L R, items = L ++ R ∧ items' = L ++ (iter, value) :: R
  | .eraseValue o value, r => ∃ items, w.contents o = some items ∧
      r = .count (if SortedList.contains lt value (items.map Prod.snd) then 1 else 0)
  | .eraseAt o k, r => ∃ s items', w.sets o = some s ∧ w'.contents o = some items' ∧
      r = .iter (iterAt s.end' items' k)
  | _, r => r = .void

end World

theorem Sim.shows {w : World T} {ref : Ref T} {ts : Nat → RBTree (Item T)} (h : Sim lt w ref ts)
    (o : Nat) : w.Shows lt o (ref o) := by
  cases ho : ref o with
  | none => exact h.not_live ho
  | some l =>
    obtain ⟨s, hs, rfl, hinv, hsort, rfl, -⟩ := h.live ho
    have hlen : (values (ts o)).length = (ts o).toList.length := length_values _
    refine ⟨s, (ts o).toList, hs, hinv.contents_eq, rfl, hinv.rep.nodup, hsort, ?_, ?_,
      fun value => ⟨hinv.find_eq hsort value, hinv.lowerBound_eq hsort value,
        hinv.upperBound_eq hsort value⟩⟩
    · rw [hlen, hinv.size_eq]
    · rw [hinv.empty_eq]
      simp [values]

omit [SortedList.WeakOrder lt] in
theorem Sim.contents_some {w : World T} {ref : Ref T} {ts : Nat → RBTree (Item T)}
    (h : Sim lt w ref ts) {o : Nat} {s : RankSet T} (hs : w.sets o = some s) :
    w.contents o = some (ts o).toList := by
  simp [World.contents, hs, h.contents hs]

omit [SortedList.WeakOrder lt] in
/-- The walk over an object the reference knows. -/
theorem Sim.contents_of_ref {w : World T} {ref : Ref T} {ts : Nat → RBTree (Item T)}
    (h : Sim lt w ref ts) {o : Nat} {l : List T} (ho : ref o = some l) :
    w.contents o = some (ts o).toList := by
  obtain ⟨s, hs, -⟩ := h.live ho
  exact h.contents_some hs

omit [SortedList.WeakOrder lt] in
/-- What a call returns, read off the walks. -/
theorem Returns.answers {w w' : World T} {ref ref' : Ref T} {ts ts' : Nat → RBTree (Item T)}
    {op : Op T} {r : Result} (hret : Returns lt w ts ts' op r) (h : Sim lt w ref ts)
    (h' : Sim lt w' ref' ts') (hop : ref.step lt op = some ref') : World.Answers lt w w' op r := by
  cases op with
  | insert o value =>
    obtain ⟨s, iter, hs, hr, hiter, hcase⟩ := hret
    obtain ⟨l, ho, rfl⟩ : ∃ l, ref o = some l ∧
        update ref o (some (SortedList.insert lt value l)) = ref' := by
      simpa [Ref.step, Option.bind_eq_some_iff] using hop
    exact ⟨s, _, _, iter, hs, h.contents_some hs, h'.contents_of_ref (update_self ..), hr, hiter,
      hcase⟩
  | eraseValue o value =>
    obtain ⟨l, ho, -⟩ : ∃ l, ref o = some l ∧
        update ref o (some (SortedList.erase lt value l)) = ref' := by
      simpa [Ref.step, Option.bind_eq_some_iff] using hop
    exact ⟨_, h.contents_of_ref ho, hret⟩
  | eraseAt o k =>
    obtain ⟨s, hs, hr⟩ := hret
    obtain ⟨l, ho, rfl⟩ : ∃ l, ref o = some l ∧ update ref o (some (l.eraseIdx k)) = ref' := by
      simpa [Ref.step, Option.bind_eq_some_iff] using hop
    exact ⟨s, _, hs, h'.contents_of_ref (update_self ..), hr⟩
  | _ => exact hret

/-- **RankSet refines a sorted set.** A program that only names live objects
runs to the end; then every object shows its reference, every further call
answers like the reference and leaves all objects it does not name alone. -/
theorem run_refines (lt : T → T → Bool) [SortedList.WeakOrder lt] (ops : List (Op T))
    {ref : Ref T} (h : Ref.run lt (fun _ => none) ops = some ref) :
    ∃ w, World.run lt .empty ops = some w ∧ (∀ o, w.Shows lt o (ref o)) ∧
      ∀ op ref', ref.step lt op = some ref' →
        ∃ w' r, w.step lt op = some (w', r) ∧ (∀ o, w'.Shows lt o (ref' o)) ∧
          World.Answers lt w w' op r ∧ ∀ p, p ∉ op.targets → w'.contents p = w.contents p := by
  obtain ⟨w, ts, e, hsim⟩ := run_sim Sim.empty h
  refine ⟨w, e, hsim.shows, fun op ref' hop => ?_⟩
  obtain ⟨w', r, ts', e', hsim', hframe, hret⟩ := step_sim hsim hop
  refine ⟨w', r, e', hsim'.shows, hret.answers hsim hsim' hop, fun p hp => ?_⟩
  obtain ⟨hset, htree⟩ := hframe p hp
  cases hs : w.sets p with
  | none => simp [World.contents, hset, hs]
  | some s => rw [hsim.contents_some hs, hsim'.contents_some (hset.trans hs), htree]

instance natWeakOrder : SortedList.WeakOrder fun a b : Nat => decide (a < b) where
  irrefl a := by simp
  trans a b c := by
    simp only [decide_eq_true_eq]
    exact Nat.lt_trans
  incomp_trans a b c := by
    simp only [decide_eq_true_eq]
    omega

/-- A copy and its original go separate ways. -/
theorem run_refines_copy : ∃ w, World.run (fun a b : Nat => decide (a < b)) .empty
      [.construct 0, .insert 0 2, .insert 0 1, .copyConstruct 1 0, .eraseValue 0 2] = some w ∧
    w.Shows (fun a b : Nat => decide (a < b)) 0 (some [1]) ∧
    w.Shows (fun a b : Nat => decide (a < b)) 1 (some [1, 2]) := by
  obtain ⟨w, hw, hs, -⟩ := run_refines (fun a b : Nat => decide (a < b))
    [.construct 0, .insert 0 2, .insert 0 1, .copyConstruct 1 0, .eraseValue 0 2] rfl
  exact ⟨w, hw, hs 0, hs 1⟩

/-! ## The representation invariant -/

/-- The invariant of a counted red-black tree `t` below a header node: `TreeRep`
fixes every colour, parent link, child link and subtree count. -/
structure RepInvariant (lt : T → T → Bool) (m : Memory T) (s : RankSet T) (t : RBTree (Item T)) :
    Prop where
  nodes : TreeRep m (some s.header) t
  rootBlack : t.isRed = false
  noRedRed : t.NoRedRed
  blackHeight : ∃ n, t.BlackHeight n
  headerNode : ∃ h, m.cell s.header = some h ∧ h.isRed = true ∧ h.parent = root t ∧
    h.left = some ((addrs t).head?.getD s.header) ∧
    h.right = some ((addrs t).getLast?.getD s.header) ∧ h.nodeCount = t.toList.length
  sorted : SortedList.Sorted lt (values t)
  height : t.height ≤ 2 * Nat.log 2 (t.toList.length + 1)

/-- **The representation invariant** holds of every set in every state a program
reaches. -/
theorem run_repInvariant (lt : T → T → Bool) [SortedList.WeakOrder lt] (ops : List (Op T))
    {w : World T} (h : World.run lt .empty ops = some w) {o : Nat} {s : RankSet T}
    (hs : w.sets o = some s) :
    ∃ t, RepInvariant lt w.mem s t ∧ s.contents w.mem = some t.toList := by
  obtain ⟨ref, ts, -, hsim⟩ := sim_of_run Sim.empty h
  have hinv := hsim.inv o s hs
  obtain ⟨n, hn⟩ := hinv.isRB.blackHeight
  refine ⟨ts o, ⟨hinv.rep.tree, hinv.isRB.rootBlack, hinv.isRB.noRedRed, ⟨n, hn⟩,
    ⟨_, hinv.cell_header, rfl, rfl, ?_, ?_, ?_⟩, hsim.sorted o s hs, ?_⟩, hinv.contents_eq⟩
  · cases hl : (ts o).toList <;> simp [headerOf, RBTree.seq, addrs, hl]
  · rcases List.eq_nil_or_concat (ts o).toList with hl | ⟨L, x, hl⟩ <;>
      simp [headerOf, RBTree.seq, addrs, hl]
  · rw [RBTree.toList_length]
    rfl
  · rw [RBTree.toList_length]
    exact RBTree.height_le_two_mul_log hn hinv.isRB.noRedRed hinv.isRB.rootBlack

theorem run_repInvariant_three : ∃ w s t, World.run (fun a b : Nat => decide (a < b)) .empty
      [.construct 0, .insert 0 1, .insert 0 2, .insert 0 3] = some w ∧ w.sets 0 = some s ∧
    RepInvariant (fun a b : Nat => decide (a < b)) w.mem s t := by
  obtain ⟨w, s, hw, hs⟩ := exists_live (o := 0) (fun a b : Nat => decide (a < b))
    [.construct 0, .insert 0 1, .insert 0 2, .insert 0 3] rfl rfl
  obtain ⟨t, ht, -⟩ := run_repInvariant (fun a b : Nat => decide (a < b))
    [.construct 0, .insert 0 1, .insert 0 2, .insert 0 3] hw hs
  exact ⟨w, s, t, hw, hs, ht⟩

/-! ## Order statistics -/

/-- **`select` and `rank`** in every state a program reaches: `select(i)` is the
element with `i` smaller ones, `rank(v)` the number of elements below `v`. -/
theorem run_select_rank (lt : T → T → Bool) [SortedList.WeakOrder lt] (ops : List (Op T))
    {w : World T} (h : World.run lt .empty ops = some w) {o : Nat} {s : RankSet T}
    (hs : w.sets o = some s) :
    ∃ items, s.contents w.mem = some items ∧ s.size w.mem = some items.length ∧
      (∀ i (hi : i < items.length), s.select w.mem i = some items[i].1 ∧
        items.countP (fun x => lt x.2 items[i].2) = i ∧ s.rank w.mem items[i].2 = some i) ∧
      (∀ i, items.length ≤ i → s.select w.mem i = some s.end') ∧
      (∀ value, s.rank w.mem value = some (items.countP fun x => lt x.2 value)) ∧
      ∀ value, (s.rank w.mem value).bind (s.select w.mem) = s.lowerBound w.mem value := by
  obtain ⟨ref, ts, -, hsim⟩ := sim_of_run Sim.empty h
  have hinv := hsim.inv o s hs
  obtain rfl := hsim.cmp o s hs
  have hsort := hsim.sorted o s hs
  have hrank : ∀ value, s.rank w.mem value =
      some ((ts o).toList.countP fun x => s.compareFunc x.2 value) := fun value => by
    rw [hinv.rank_eq hsort, SortedList.rank, values, List.countP_map]
    rfl
  refine ⟨(ts o).toList, hinv.contents_eq, hinv.size_eq, fun i hi => ?_, fun i hi => ?_, hrank,
    fun value => ?_⟩
  · have hsplit : (ts o).toList = (ts o).toList.take i ++ (ts o).toList[i] ::
        (ts o).toList.drop (i + 1) := by
      rw [List.getElem_cons_drop, List.take_append_drop]
    have hcut : SortedList.Cut s.compareFunc (ts o).toList[i].2 _ _ :=
      SortedList.Sorted.cut_self (by
        rw [values, hsplit, List.map_append, List.map_cons] at hsort
        exact hsort)
    have hi' : s.rank w.mem (ts o).toList[i].2 = some i := by
      have hval : values (ts o) = _ := (congrArg (List.map Prod.snd) hsplit).trans
        (by rw [List.map_append, List.map_cons])
      rw [hinv.rank_eq hsort, hval, hcut.rank_eq, List.length_map,
        List.length_take_of_le (Nat.le_of_lt hi)]
    refine ⟨?_, Option.some.inj ((hrank _).symm.trans hi'), hi'⟩
    rw [hinv.select_eq, iterAt, List.drop_eq_getElem_cons hi, firstOr_cons]
  · rw [hinv.select_eq, iterAt, List.drop_eq_nil_of_le hi]
    rfl
  · rw [hinv.rank_eq hsort, Option.bind_some, hinv.select_eq, hinv.lowerBound_eq hsort,
      SortedList.rank_eq_lowerBound hsort]

theorem run_select_rank_three : ∃ w s, World.run (fun a b : Nat => decide (a < b)) .empty
      [.construct 0, .insert 0 5, .insert 0 7, .insert 0 6, .eraseValue 0 5] = some w ∧
    w.sets 0 = some s ∧
    (s.rank w.mem 9).bind (s.select w.mem) = s.lowerBound w.mem 9 := by
  obtain ⟨w, s, hw, hs⟩ := exists_live (o := 0) (fun a b : Nat => decide (a < b))
    [.construct 0, .insert 0 5, .insert 0 7, .insert 0 6, .eraseValue 0 5] rfl rfl
  obtain ⟨items, -, -, -, -, -, hlower⟩ := run_select_rank (fun a b : Nat => decide (a < b))
    [.construct 0, .insert 0 5, .insert 0 7, .insert 0 6, .eraseValue 0 5] hw hs
  exact ⟨w, s, hw, hs, hlower 9⟩

end Brickred
