import Brickred.RankSet.Refinement

/-!
# Iterators of a `RankSet`

`Iterates` is what the four kinds of iterators do on a set with given elements: `++` and
`--` step between neighbours, and the header is the position behind the last element and,
for a reverse iterator, behind the first. It holds in every state a program reaches, and
again behind `erase(iterator)` for the iterators that were taken before.
-/

namespace Brickred

open RedBlack HeapTree

variable {T : Type} {m m' : Memory T} {s : RankSet T} {v : T} {t : RBTree (Item T)}

/-- `k` steps of an iterator. -/
def steps (f : Addr → Option Addr) : Nat → Addr → Option Addr
  | 0, a => some a
  | k + 1, a => do steps f k (← f a)

namespace RankSet

/-- The iterators of a set with the elements `items`, nodes and values in order. A
`ReverseIterator` steps with `decrement`. -/
structure Iterates (s : RankSet T) (m : Memory T) (items : List (Item T)) : Prop where
  contents : s.contents m = some items
  begin_eq : s.begin m = some (firstOr s.end' items)
  rbegin_eq : s.rbegin m = some (firstOr s.rend items.reverse)
  increment : ∀ {L x R}, items = L ++ x :: R → m.increment x.1 = some (firstOr s.end' R)
  decrement : ∀ {L x R}, items = L ++ x :: R → m.decrement x.1 = some (firstOr s.rend L.reverse)
  decrement_end : items ≠ [] → m.decrement s.end' = some (firstOr s.end' items.reverse)
  node : ∀ x ∈ items, ∃ n, m.cell x.1 = some n ∧ n.value = x.2
  distinct : (s.end' :: items.map Prod.fst).Nodup

namespace Iterates

variable {items : List (Item T)} {k : Nat}

theorem split (hk : k < items.length) :
    items = items.take k ++ items[k] :: items.drop (k + 1) := by
  rw [List.getElem_cons_drop, List.take_append_drop]

theorem iterAt_getElem (header : Addr) (hk : k < items.length) :
    iterAt header items k = items[k].1 := by
  rw [iterAt, List.drop_eq_getElem_cons hk, firstOr_cons]

variable (h : s.Iterates m items)
include h

/-- `++` at a position. -/
theorem increment_iterAt (hk : k < items.length) :
    m.increment (iterAt s.end' items k) = some (iterAt s.end' items (k + 1)) := by
  rw [iterAt_getElem _ hk]
  exact h.increment (split hk)

/-- `--` at a position. -/
theorem decrement_iterAt (hk : k < items.length) :
    m.decrement (iterAt s.end' items (k + 1)) = some (iterAt s.end' items k) := by
  have hne : items ≠ [] := List.ne_nil_of_length_pos (Nat.zero_lt_of_lt hk)
  rw [iterAt_getElem _ hk]
  by_cases hlast : k + 1 < items.length
  · have hrev : (items.take (k + 1)).reverse = items[k] :: (items.take k).reverse := by
      rw [List.take_succ_eq_append_getElem hk, List.reverse_append]
      rfl
    rw [iterAt_getElem _ hlast, h.decrement (split hlast), hrev, firstOr_cons]
  · have hlen : k + 1 = items.length := by omega
    have hrev : items.reverse = items[k] :: (items.take k).reverse := by
      conv_lhs => rw [← List.take_length (l := items), ← hlen,
        List.take_succ_eq_append_getElem hk, List.reverse_append]
      rfl
    rw [hlen, iterAt_end, h.decrement_end hne, hrev, firstOr_cons]

/-- Steps forward from a position. -/
theorem steps_increment {i : Nat} (hk : i + k ≤ items.length) :
    steps m.increment k (iterAt s.end' items i) = some (iterAt s.end' items (i + k)) := by
  induction k generalizing i with
  | zero => rfl
  | succ k ih =>
    rw [steps, h.increment_iterAt (by omega)]
    exact (ih (by omega)).trans (by rw [Nat.add_right_comm, Nat.add_assoc])

/-- Steps back from a position. -/
theorem steps_decrement {i : Nat} (hk : k ≤ i) (hi : i ≤ items.length) :
    steps m.decrement k (iterAt s.end' items i) = some (iterAt s.end' items (i - k)) := by
  induction k generalizing i with
  | zero => rfl
  | succ k ih =>
    obtain ⟨i, rfl⟩ := Nat.exists_eq_succ_of_ne_zero (show i ≠ 0 by omega)
    rw [steps, h.decrement_iterAt (by omega)]
    exact (ih (by omega) (by omega)).trans (by rw [Nat.succ_sub_succ])

/-- Steps of a reverse iterator. -/
theorem steps_reverse {i : Nat} (hk : i + k ≤ items.length) :
    steps m.decrement k (iterAt s.rend items.reverse i) =
      some (iterAt s.rend items.reverse (i + k)) := by
  induction k generalizing i with
  | zero => rfl
  | succ k ih =>
    have hi : i < items.reverse.length := by
      rw [List.length_reverse]
      omega
    have hsplit : items = (items.reverse.drop (i + 1)).reverse ++
        items.reverse[i] :: (items.reverse.take i).reverse := by
      have hrev := congrArg List.reverse (split hi)
      simpa using hrev
    have hstep := h.decrement hsplit
    rw [List.reverse_reverse] at hstep
    rw [steps, iterAt_getElem _ hi, hstep]
    exact (ih (by omega)).trans (by rw [Nat.add_right_comm, Nat.add_assoc])

end Iterates

end RankSet

namespace HeapTree.SetInv

/-- The value in a node. -/
theorem cell_of_mem (h : TreeRep m p t) {x : Item T} (hx : x ∈ t.toList) :
    ∃ n, m.cell x.1 = some n ∧ n.value = x.2 := by
  induction t generalizing p with
  | nil => cases hx
  | node red l a r ihl ihr =>
    obtain ⟨ha, hl, hr⟩ := h
    rcases List.mem_append.mp hx with hx | hx
    · exact ihl hl hx
    · cases hx with
      | head => exact ⟨_, ha, rfl⟩
      | tail _ hx => exact ihr hr hx

/-- `operator--` on `end()`. -/
theorem decrement_end (h : SetInv m s v t) (hne : t.toList ≠ []) :
    m.decrement s.header = some (firstOr s.header t.toList.reverse) := by
  obtain ⟨red, l, a, r, rfl⟩ : ∃ red l a r, t = .node red l a r := by
    cases t with
    | nil => exact absurd rfl hne
    | node red l a r => exact ⟨red, l, a, r, rfl⟩
  have hroot : m.cell a.1 = some ⟨red, some s.header, root l, root r, l.size + r.size + 1, a.2⟩ :=
    h.rep.tree.1
  have hparent : (headerOf s.header v (.node red l a r)).parent = some a.1 := rfl
  have hred : (headerOf s.header v (.node red l a r)).isRed = true := rfl
  simp only [Memory.decrement, h.cell_header, Option.bind_eq_bind, Option.bind_some, hred, if_true,
    hparent, hroot]
  rfl

theorem iterates (h : SetInv m s v t) : s.Iterates m t.toList where
  contents := h.contents_eq
  begin_eq := h.begin_eq
  rbegin_eq := by
    simp [RankSet.rbegin, h.cell_header, headerOf, RBTree.seq, RankSet.rend]
  increment hs := h.increment_eq hs
  decrement hs := h.decrement_eq hs
  decrement_end hne := h.decrement_end hne
  node x hx := cell_of_mem h.rep.tree hx
  distinct := h.rep.nodup

end HeapTree.SetInv

/-! ## `erase(iterator)` -/

theorem RankSet.eraseNodeFinish_cell {z p : Addr} {x : Ptr}
    (e : s.eraseNodeFinish m z x p = some m') : m'.cell z = none := by
  unfold RankSet.eraseNodeFinish at e
  obtain ⟨m₁, -, e⟩ := Option.bind_eq_some_iff.mp e
  obtain ⟨m₂, -, e⟩ := Option.bind_eq_some_iff.mp e
  obtain ⟨m₃, -, e⟩ := Option.bind_eq_some_iff.mp e
  obtain ⟨n, -, rfl⟩ := Option.map_eq_some_iff.mp e
  exact if_pos rfl

/-- The node that `eraseNode` is called with is the one it deletes, also when its successor
has been relinked in its place. -/
theorem RankSet.eraseNode_cell {z : Addr} (e : s.eraseNode m z = some m') : m'.cell z = none := by
  unfold RankSet.eraseNode at e
  obtain ⟨m₁, -, e⟩ := Option.bind_eq_some_iff.mp e
  obtain ⟨n, -, e⟩ := Option.bind_eq_some_iff.mp e
  split at e
  · obtain ⟨⟨m₂, p⟩, -, e⟩ := Option.bind_eq_some_iff.mp e
    exact RankSet.eraseNodeFinish_cell e
  · obtain ⟨⟨m₂, p⟩, -, e⟩ := Option.bind_eq_some_iff.mp e
    exact RankSet.eraseNodeFinish_cell e
  · obtain ⟨y, -, e⟩ := Option.bind_eq_some_iff.mp e
    obtain ⟨ny, -, e⟩ := Option.bind_eq_some_iff.mp e
    obtain ⟨⟨m₂, p⟩, -, e⟩ := Option.bind_eq_some_iff.mp e
    exact RankSet.eraseNodeFinish_cell e

/-- The values in the nodes but one stay as they are. -/
theorem HeapTree.SetInv.value_eq {t' : RBTree (Item T)} (h : SetInv m s v t)
    (h' : SetInv m' s v t') {x : Item T} {L R : List (Item T)} (hs : t.toList = L ++ x :: R)
    (hs' : t'.toList = L ++ R) (hl : ObjectHeap.Local (s.header :: addrs t) m m') {a : Addr}
    (ha : a ≠ x.1) :
    (m'.cell a).map RBTreeNode.value = (m.cell a).map RBTreeNode.value := by
  by_cases hmem : a ∈ s.header :: addrs t
  · rcases List.mem_cons.mp hmem with rfl | hmem
    · rw [h.cell_header, h'.cell_header]
      rfl
    · obtain ⟨y, hy, rfl⟩ := List.mem_map.mp hmem
      have hy' : y ∈ t'.toList := by
        rw [hs'] at *
        rw [hs] at hy
        rcases List.mem_append.mp hy with hy | hy
        · exact List.mem_append_left _ hy
        · cases hy with
          | head => exact absurd rfl ha
          | tail _ hy => exact List.mem_append_right _ hy
      obtain ⟨n, hn, hv⟩ := h.iterates.node y hy
      obtain ⟨n', hn', hv'⟩ := h'.iterates.node y hy'
      rw [hn, hn', Option.map_some, Option.map_some, hv, hv']
  · rw [hl.2 a hmem]

/-! ## In every state a program reaches -/

section Runs

variable [Inhabited T] (lt : T → T → Bool) [SortedList.WeakOrder lt] (ops : List (Op T))
  {w : World T}

/-- **Iteration**: on a set with `n` elements, which are those the program has put there,
`k` increments of `begin()` and `n - k` decrements of `end()` give the `k`-th of them in
strictly increasing order, or `end()` for `k = n`; a reverse iterator goes from `rbegin()`
to `rend()` through them in the reverse order; and one step undoes the other. -/
theorem run_iterate (h : World.run lt .empty ops = some w) {o : Nat} {s : RankSet T}
    (hs : w.sets o = some s) :
    ∃ (items : List (Item T)) (ref : Ref T),
      Ref.run lt (fun _ => none) ops = some ref ∧ ref o = some (items.map Prod.snd) ∧
      s.size w.mem = some items.length ∧
      (items.map Prod.snd).Pairwise (fun a b => lt a b = true) ∧
      (s.end' :: items.map Prod.fst).Nodup ∧
      (∀ x ∈ items, ∃ n, w.mem.cell x.1 = some n ∧ n.value = x.2) ∧
      (∀ k ≤ items.length, (s.begin w.mem).bind (steps w.mem.increment k) =
          some (iterAt s.end' items k) ∧
        steps w.mem.decrement (items.length - k) s.end' = some (iterAt s.end' items k) ∧
        (s.rbegin w.mem).bind (steps w.mem.decrement k) =
          some (iterAt s.rend items.reverse k)) ∧
      iterAt s.end' items items.length = s.end' ∧
      iterAt s.rend items.reverse items.length = s.rend ∧
      ∀ k < items.length,
        (w.mem.increment (iterAt s.end' items k)).bind w.mem.decrement =
          some (iterAt s.end' items k) ∧
        (w.mem.decrement (iterAt s.end' items (k + 1))).bind w.mem.increment =
          some (iterAt s.end' items (k + 1)) := by
  obtain ⟨ref, ts, href, hsim⟩ := sim_of_run Sim.empty h
  have hinv := hsim.inv o s hs
  have hiter := hinv.iterates
  have hsort := hsim.sorted o s hs
  refine ⟨(ts o).toList, ref, href, hsim.ref o s hs, hinv.size_eq, hsort, hiter.distinct,
    hiter.node, fun k hk => ⟨?_, ?_, ?_⟩, iterAt_end _, ?_, fun k hk => ⟨?_, ?_⟩⟩
  · have hfirst : firstOr s.end' (ts o).toList = iterAt s.end' (ts o).toList 0 := rfl
    rw [hiter.begin_eq, Option.bind_some, hfirst, hiter.steps_increment (by omega), Nat.zero_add]
  · have hlast : s.end' = iterAt s.end' (ts o).toList (ts o).toList.length := (iterAt_end _).symm
    conv_lhs => rw [hlast]
    rw [hiter.steps_decrement (by omega) le_rfl]
    congr 2
    omega
  · have hfirst : firstOr s.rend (ts o).toList.reverse = iterAt s.rend (ts o).toList.reverse 0 := rfl
    rw [hiter.rbegin_eq, Option.bind_some, hfirst, hiter.steps_reverse (by omega), Nat.zero_add]
  · rw [← List.length_reverse]
    exact iterAt_end _
  · rw [hiter.increment_iterAt hk, Option.bind_some, hiter.decrement_iterAt hk]
  · rw [hiter.decrement_iterAt hk, Option.bind_some, hiter.increment_iterAt hk]

theorem run_iterate_three : ∃ (w : World Nat) (s : RankSet Nat),
    World.run (fun a b : Nat => decide (a < b)) .empty
      [.construct 0, .insert 0 1, .insert 0 3, .insert 0 2] = some w ∧ w.sets 0 = some s ∧
    (s.begin w.mem).bind (steps w.mem.increment 3) = some s.end' := by
  obtain ⟨w, s, hw, hs⟩ := exists_live (o := 0) (fun a b : Nat => decide (a < b))
    [.construct 0, .insert 0 1, .insert 0 3, .insert 0 2] rfl rfl
  obtain ⟨items, ref, href, hitems, -, -, -, -, hwalk, hend, -⟩ := run_iterate
    (fun a b : Nat => decide (a < b)) [.construct 0, .insert 0 1, .insert 0 3, .insert 0 2] hw hs
  cases href
  have hlen : items.length = 3 := by
    have hmap : [1, 2, 3] = items.map Prod.snd := Option.some.inj hitems
    have := congrArg List.length hmap
    simpa using this.symm
  rw [hlen] at hwalk hend
  exact ⟨w, s, hw, hs, (hwalk 3 le_rfl).1.trans (congrArg some hend)⟩

/-- **`erase(iterator)`** deletes the node that the iterator denotes and returns the
iterator behind it. Every other node is where it was, with the value it had, and iterators
to the other elements step through what is left. -/
theorem run_eraseIter (h : World.run lt .empty ops = some w) {o : Nat} {s : RankSet T}
    (hs : w.sets o = some s) :
    ∃ (items : List (Item T)) (ref : Ref T),
      Ref.run lt (fun _ => none) ops = some ref ∧ ref o = some (items.map Prod.snd) ∧
      s.Iterates w.mem items ∧
      ∀ k (hk : k < items.length), ∃ m', s.eraseIter w.mem items[k].1 =
          some (m', iterAt s.end' items (k + 1)) ∧
        m'.cell items[k].1 = none ∧
        (∀ a, a ≠ items[k].1 →
          (m'.cell a).map RBTreeNode.value = (w.mem.cell a).map RBTreeNode.value) ∧
        s.Iterates m' (items.eraseIdx k) := by
  obtain ⟨ref, ts, href, hsim⟩ := sim_of_run Sim.empty h
  have hinv := hsim.inv o s hs
  refine ⟨(ts o).toList, ref, href, hsim.ref o s hs, hinv.iterates, fun k hk => ?_⟩
  have hsplit := RankSet.Iterates.split hk
  obtain ⟨m', t', e, hinv', hlist, hl⟩ := hinv.eraseIter_spec hsplit
  have hne := hinv.rep.ne_header (HeapTree.SetInv.mem_addrs_of_split hsplit)
  refine ⟨m', e, ?_, fun a ha => hinv.value_eq hinv' hsplit hlist hl ha, ?_⟩
  · rw [RankSet.eraseIter, RankSet.end', if_neg hne] at e
    obtain ⟨ret, -, e⟩ := Option.bind_eq_some_iff.mp e
    obtain ⟨m₁, hm₁, he⟩ := Option.bind_eq_some_iff.mp e
    cases he
    exact RankSet.eraseNode_cell hm₁
  · rw [List.eraseIdx_eq_take_drop_succ, ← hlist]
    exact hinv'.iterates

theorem run_eraseIter_two : ∃ (w : World Nat) (s : RankSet Nat) (items : List (Item Nat)) (m' : _),
    World.run (fun a b : Nat => decide (a < b)) .empty
      [.construct 0, .insert 0 1, .insert 0 3, .insert 0 2] = some w ∧ w.sets 0 = some s ∧
    items.map Prod.snd = [1, 2, 3] ∧ s.Iterates m' (items.eraseIdx 1) := by
  obtain ⟨w, s, hw, hs⟩ := exists_live (o := 0) (fun a b : Nat => decide (a < b))
    [.construct 0, .insert 0 1, .insert 0 3, .insert 0 2] rfl rfl
  obtain ⟨items, ref, href, hitems, -, herase⟩ := run_eraseIter
    (fun a b : Nat => decide (a < b)) [.construct 0, .insert 0 1, .insert 0 3, .insert 0 2] hw hs
  cases href
  have hmap : [1, 2, 3] = items.map Prod.snd := Option.some.inj hitems
  have hlen : 1 < items.length := by
    have := congrArg List.length hmap
    simp at this
    omega
  obtain ⟨m', -, -, -, hiter⟩ := herase 1 hlen
  exact ⟨w, s, items, m', hw, hs, hmap.symm, hiter⟩

end Runs

end Brickred
