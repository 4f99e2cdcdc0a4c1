import Brickred.Service.Closing

/-!
# What is seen of one connection

`traffic q l` is what `l` says of the bytes, the messages and the completion callbacks
of the connection `q`. The rule of this module turns a property of one entry and its
traffic that every move of the entry keeps into an invariant of runs: the moves of other
entries do not show in it, and a connection that is new has no traffic yet.
-/

namespace Brickred

variable {C : Type}

/-- The connection whose traffic an output belongs to. -/
def TcpOutput.trafficOf : TcpOutput C → Option Nat
  | .written q _ | .accepted q _ _ | .completed q _ _ => some q
  | _ => none

/-- The traffic of a connection. -/
def traffic (q : Nat) (l : List (TcpOutput C)) : List (TcpOutput C) :=
  l.filter fun o => o.trafficOf = some q

section

variable {q : Nat} {l l' : List (TcpOutput C)} {o : TcpOutput C}

@[simp] theorem traffic_nil (q : Nat) : traffic q ([] : List (TcpOutput C)) = [] := rfl

@[simp] theorem traffic_append (q : Nat) (l l' : List (TcpOutput C)) :
    traffic q (l ++ l') = traffic q l ++ traffic q l' := List.filter_append ..

theorem traffic_cons (q : Nat) (o : TcpOutput C) (l : List (TcpOutput C)) :
    traffic q (o :: l) = if o.trafficOf = some q then o :: traffic q l else traffic q l := by
  unfold traffic
  rw [List.filter_cons]
  simp

theorem mem_traffic : o ∈ traffic q l ↔ o ∈ l ∧ o.trafficOf = some q := by simp [traffic]

theorem traffic_eq_nil (h : ∀ o ∈ l, o.trafficOf ≠ some q) : traffic q l = [] :=
  List.filter_eq_nil_iff.mpr fun o ho => by simpa using h o ho

end

section Moves

variable {cfg : TcpConfig} {z : TcpHazard} {n m : Nat} {a : TcpActor} {id id' : SocketId}
  {l outs : List (TcpOutput C)} {y : Option (TcpEntry C)} {x : Option (TcpEntry C)}
  {T T' : TcpTable C} {e e' : TcpEntry C} {q : Nat} {c c' : TcpConnection C}

/-- Only the connection of the entry has traffic, and none in a step that opens sockets. -/
theorem EntryMove.of_traffic (h : EntryMove cfg z n m id a outs x y) {o : TcpOutput C} (ho : o ∈ outs)
    (hq : o.trafficOf = some q) :
    (∀ i, ¬z.opens i) ∧ ∃ e c, x = some e ∧ e.connection = some (q, c) := by
  cases h with
  | @sent _ e q' c message cb _ hquiet hc hstatus hempty hafter =>
    refine ⟨hquiet, e, c, rfl, ?_⟩
    have heq : q' = q := by
      cases cb <;> simp at ho <;> rcases ho with rfl | rfl | rfl <;> exact Option.some.inj hq
    exact heq ▸ hc
  | @drained e q' c writeBuffer _ hquiet hc hwrite hread hafter =>
    refine ⟨hquiet, e, c, rfl, ?_⟩
    have heq : q' = q := by
      cases hcb : c.sendCompleteCb <;> rw [hcb] at ho <;> simp at ho
      · subst ho
        exact Option.some.inj hq
      · rcases ho with rfl | rfl <;> exact Option.some.inj hq
    exact heq ▸ hc
  | @started _ e q' c message k writeBuffer cb hquiet hc =>
    refine ⟨hquiet, e, c, rfl, ?_⟩
    simp at ho
    rcases ho with rfl | rfl <;> cases hq <;> exact hc
  | @queued _ e q' c message writeBuffer cb hquiet hc =>
    obtain rfl := List.mem_singleton.mp ho
    cases hq
    exact ⟨hquiet, e, c, rfl, hc⟩
  | @wrote e q' c k writeBuffer hquiet hc =>
    obtain rfl := List.mem_singleton.mp ho
    cases hq
    exact ⟨hquiet, e, c, rfl, hc⟩
  | @failed _ e q' c errno timer _ hquiet hc hstatus htimer houts =>
    rcases houts with rfl | ⟨-, bytes, rfl⟩ <;> simp at ho
    · subst ho
      cases hq
    · rcases ho with rfl | rfl <;> cases hq
      exact ⟨hquiet, e, c, rfl, hc⟩
  | @thrown _ e q' c _ hquiet hc hthrows houts =>
    rcases houts with rfl | ⟨-, bytes, rfl⟩ <;> simp at ho
    · subst ho
      cases hq
    · rcases ho with rfl | rfl <;> cases hq
      exact ⟨hquiet, e, c, rfl, hc⟩
  | opened _ _ _ _ _ _ houts =>
    rcases houts with rfl | ⟨_, rfl⟩ <;> simp at ho
    subst ho
    cases hq
  | errored _ houts | established _ _ _ _ houts | peerClosed _ houts =>
    rcases houts with rfl | rfl <;> simp at ho
    subst ho
    cases hq
  | refused | reported | announced =>
    obtain rfl := List.mem_singleton.mp ho
    cases hq
  | listening | connecting | closed | context | consumed | paused | resumed | untimed | received =>
    cases ho

/-- An entry that is not closed keeps its connection. -/
theorem EntryMove.connection_eq (h : EntryMove cfg z n m id a outs (some e) (some e')) :
    e'.connection.map Prod.fst = e.connection.map Prod.fst := by
  cases h with
  | sent _ _ _ _ hafter =>
    obtain rfl := TcpEntry.afterComplete_eq_some hafter
    rfl
  | drained _ hc _ _ hafter =>
    obtain rfl := TcpEntry.afterComplete_eq_some hafter
    rw [hc]
    rfl
  | context | refused | thrown | paused | resumed | untimed | reported | announced => rfl
  | consumed hc | failed _ hc | started _ hc | queued _ hc | errored hc | established hc
  | received hc | peerClosed hc | wrote _ hc =>
    rw [hc]
    rfl

theorem EntryMove.connection_some (h : EntryMove cfg z n m id a outs (some e) (some e'))
    (hc' : e'.connection = some (q, c')) : ∃ c, e.connection = some (q, c) := by
  have heq := h.connection_eq
  rw [hc'] at heq
  obtain ⟨⟨q', c⟩, hc, hq⟩ := Option.map_eq_some_iff.mp heq.symm
  obtain rfl : q' = q := hq
  exact ⟨c, hc⟩

/-- A new entry has a new connection. -/
theorem EntryMove.connection_new (h : EntryMove cfg z n m id a outs none (some e'))
    (hc' : e'.connection = some (q, c')) :
    m ≤ q ∧ z.opens id ∧ c'.writeBuffer.readable = [] ∧ c'.sendCompleteCb = none := by
  cases h with
  | listening => cases hc'
  | opened hid hopens hp hq hstatus hfresh | connecting hid hopens hp hq hstatus hfresh =>
    cases hc'
    exact ⟨hq, hopens, hfresh.write, hfresh.callback⟩

end Moves

/-! ## A rule for properties of the traffic -/

/-- The traffic of every connection in the table has a property, together with the entry. -/
def TcpTable.Accounts (P : List (TcpOutput C) → TcpEntry C → TcpConnection C → Prop)
    (T : TcpTable C) (l : List (TcpOutput C)) : Prop :=
  ∀ {id e q c}, T id = some e → e.connection = some (q, c) → P (traffic q l) e c

/-- `P` holds of new connections, and every move keeps it and leaves traffic with `L`. -/
structure Accountable (P : List (TcpOutput C) → TcpEntry C → TcpConnection C → Prop)
    (L : List (TcpOutput C) → Prop) (cfg : TcpConfig) (z : TcpHazard) (n m : Nat) (a : TcpActor) :
    Prop where
  opened : ∀ {id outs e q c}, EntryMove cfg z n m id a outs none (some e) →
    e.connection = some (q, c) → P [] e c
  moved : ∀ {id outs t e q c y}, EntryMove cfg z n m id a outs (some e) y →
    e.connection = some (q, c) → P t e c → L t → L (t ++ traffic q outs) ∧
      ∀ e' c', y = some e' → e'.connection = some (q, c') → P (t ++ traffic q outs) e' c'

section

variable {P : List (TcpOutput C) → TcpEntry C → TcpConnection C → Prop}
  {L : List (TcpOutput C) → Prop} {cfg : TcpConfig} {z : TcpHazard} {n m : Nat} {a : TcpActor}
  {l outs : List (TcpOutput C)} {T T' : TcpTable C}

/-- The connections of a table, in the middle of a step from one where all are older
than `m` and belong to one socket each. -/
structure TcpTable.Owned (z : TcpHazard) (m : Nat) (T : TcpTable C) : Prop where
  old : ∀ {id e q c}, T id = some e → e.connection = some (q, c) → q < m ∨ ∃ i, z.opens i
  unique : ∀ {id id' e e' q c c'}, q < m → T id = some e → T id' = some e' →
    e.connection = some (q, c) → e'.connection = some (q, c') → id = id'

theorem TcpTable.Owned.move (h : T.Owned z m) {id : SocketId} {x : Option (TcpEntry C)}
    (hmove : EntryMove cfg z n m id a outs (T id) x) :
    TcpTable.Owned z m (Function.update T id x) := by
  -- what the updated table has of old connections, the table had
  have hback : ∀ {id' e q c}, Function.update T id x id' = some e → e.connection = some (q, c) →
      (∃ e c, T id' = some e ∧ e.connection = some (q, c)) ∨ m ≤ q ∧ z.opens id := by
    intro id' e q c he hc
    by_cases hid : id' = id
    · subst hid
      rw [Function.update_self] at he
      subst he
      cases hT : T id' with
      | none =>
        rw [hT] at hmove
        obtain ⟨hq, hopens, -⟩ := hmove.connection_new hc
        exact .inr ⟨hq, hopens⟩
      | some e₀ =>
        rw [hT] at hmove
        obtain ⟨c₀, hc₀⟩ := hmove.connection_some hc
        exact .inl ⟨e₀, c₀, rfl, hc₀⟩
    · rw [Function.update_of_ne hid] at he
      exact .inl ⟨e, c, he, hc⟩
  constructor
  · intro id' e q c he hc
    rcases hback he hc with ⟨e₀, c₀, he₀, hc₀⟩ | ⟨-, hopens⟩
    · exact h.old he₀ hc₀
    · exact .inr ⟨id, hopens⟩
  · intro id₁ id₂ e₁ e₂ q c₁ c₂ hq he₁ he₂ hc₁ hc₂
    rcases hback he₁ hc₁ with ⟨_, _, he₁, hc₁⟩ | ⟨hle, -⟩
    · rcases hback he₂ hc₂ with ⟨_, _, he₂, hc₂⟩ | ⟨hle, -⟩
      · exact h.unique hq he₁ he₂ hc₁ hc₂
      · exact absurd hq (Nat.not_lt.mpr hle)
    · exact absurd hq (Nat.not_lt.mpr hle)

/-- The traffic of a move is that of the connection of its entry, which is an old one. -/
theorem TcpTable.Owned.of_traffic (h : T.Owned z m) {id : SocketId} {x : Option (TcpEntry C)}
    (hmove : EntryMove cfg z n m id a outs (T id) x) {q : Nat} (hne : traffic q outs ≠ []) :
    q < m ∧ ∃ e c, T id = some e ∧ e.connection = some (q, c) := by
  obtain ⟨o, ho⟩ := List.exists_mem_of_ne_nil _ hne
  obtain ⟨ho, hq⟩ := mem_traffic.mp ho
  obtain ⟨hquiet, e, c, he, hc⟩ := hmove.of_traffic ho hq
  refine ⟨(h.old he hc).resolve_right fun ⟨i, hi⟩ => hquiet i hi, e, c, he, hc⟩

/-- What the rule keeps in the middle of a step. -/
structure TcpTable.Accounted (P : List (TcpOutput C) → TcpEntry C → TcpConnection C → Prop)
    (L : List (TcpOutput C) → Prop) (z : TcpHazard) (m : Nat) (T : TcpTable C)
    (l : List (TcpOutput C)) : Prop where
  owned : T.Owned z m
  accounts : T.Accounts P l
  fresh : ∀ q, m ≤ q → traffic q l = []
  all : ∀ q, L (traffic q l)

theorem TcpTable.Accounted.move (hP : Accountable P L cfg z n m a) (h : T.Accounted P L z m l)
    {id : SocketId} {x : Option (TcpEntry C)}
    (hmove : EntryMove cfg z n m id a outs (T id) x) :
    TcpTable.Accounted P L z m (Function.update T id x) (l ++ outs) := by
  have hquiet : ∀ q, (∀ e c, T id = some e → e.connection ≠ some (q, c)) → traffic q outs = [] := by
    intro q hq
    by_contra hne
    obtain ⟨-, e, c, he, hc⟩ := h.owned.of_traffic hmove hne
    exact hq e c he hc
  refine ⟨h.owned.move hmove, ?_, ?_, ?_⟩
  · intro id' e' q c' he' hc'
    rw [traffic_append]
    by_cases hid : id' = id
    · subst hid
      rw [Function.update_self] at he'
      subst he'
      cases hT : T id' with
      | none =>
        have hnone : traffic q outs = [] := hquiet q (by simp [hT])
        rw [hT] at hmove
        rw [hnone, h.fresh q (hmove.connection_new hc').1]
        exact hP.opened hmove hc'
      | some e =>
        rw [hT] at hmove
        obtain ⟨c, hc⟩ := hmove.connection_some hc'
        exact (hP.moved hmove hc (h.accounts hT hc) (h.all q)).2 e' c' rfl hc'
    · rw [Function.update_of_ne hid] at he'
      have hnone : traffic q outs = [] := by
        by_contra hne
        obtain ⟨hq, e, c, he, hc⟩ := h.owned.of_traffic hmove hne
        exact hid (h.owned.unique hq he' he hc' hc)
      rw [hnone, List.append_nil]
      exact h.accounts he' hc'
  · intro q hq
    have hnone : traffic q outs = [] := by
      by_contra hne
      exact absurd (h.owned.of_traffic hmove hne).1 (Nat.not_lt.mpr hq)
    rw [traffic_append, hnone, h.fresh q hq]
    rfl
  · intro q
    rw [traffic_append]
    by_cases hq : ∃ e c, T id = some e ∧ e.connection = some (q, c)
    · obtain ⟨e, c, he, hc⟩ := hq
      rw [he] at hmove
      exact (hP.moved hmove hc (h.accounts he hc) (h.all q)).1
    · rw [hquiet q fun e c he hc => hq ⟨e, c, he, hc⟩, List.append_nil]
      exact h.all q

theorem Moves.accounted (hP : Accountable P L cfg z n m a) (h : Moves cfg z n m a T outs T')
    (hT : T.Accounted P L z m l) : T'.Accounted P L z m (l ++ outs) := by
  refine h.history (I := TcpTable.Accounted P L z m) ?_ (fun hI hmove => hI.move hP hmove) hT
  intro T l o hI ho
  have hquiet : ∀ q, traffic q [o] = [] := fun q => traffic_eq_nil fun o' ho' hq => by
    obtain rfl := List.mem_singleton.mp ho'
    cases o' <;> cases ho <;> cases hq
  refine ⟨hI.owned, fun he hc => ?_, fun q hq => ?_, fun q => ?_⟩ <;>
    rw [traffic_append, hquiet, List.append_nil]
  · exact hI.accounts he hc
  · exact hI.fresh q hq
  · exact hI.all q

end

namespace TcpService

variable {P : List (TcpOutput C) → TcpEntry C → TcpConnection C → Prop}
  {L : List (TcpOutput C) → Prop} {s s' : TcpService C}
  {moves : List (TcpOp C × List (TcpOutput C))}

/-- All that is seen of a run. -/
def seen (moves : List (TcpOp C × List (TcpOutput C))) : List (TcpOutput C) :=
  moves.flatMap Prod.snd

/-- A service whose traffic so far has the properties of the rule. -/
structure AccountedRun (P : List (TcpOutput C) → TcpEntry C → TcpConnection C → Prop)
    (L : List (TcpOutput C) → Prop) (l : List (TcpOutput C)) (s : TcpService C) : Prop where
  invariant : Invariant s
  accounts : s.entry.Accounts P l
  fresh : ∀ q, s.connectionObjects.next ≤ q → traffic q l = []
  all : ∀ q, L (traffic q l)

theorem Invariant.owned (h : Invariant s) (z : TcpHazard) :
    s.entry.Owned z s.connectionObjects.next := by
  constructor
  · intro id e q c he hc
    exact .inl (ObjectHeap.lt_next (h.linked.connection_of_entry he hc).2.1)
  · intro id id' e e' q c c' _ he he' hc hc'
    exact h.linked.connection_inj (h.linked.connection_of_entry he hc).1
      (h.linked.connection_of_entry he' hc').1

theorem AccountedRun.step {l : List (TcpOutput C)} {move : TcpOp C × List (TcpOutput C)}
    (hP : ∀ n m, Accountable P L s.config (s.hazard move.1) n m .handler)
    (h : AccountedRun P L l s) (hstep : Steps s move s') : AccountedRun P L (l ++ move.2) s' := by
  have hspec := h.invariant.step hstep
  have hend := hspec.moves.accounted (hP _ _)
    ⟨h.invariant.owned _, h.accounts, h.fresh, h.all⟩
  exact ⟨hspec.invariant, hend.accounts, fun q hq => hend.fresh q (hspec.connectionNext.trans hq),
    hend.all⟩

/-- In a run of steps that keep it, the property is kept. -/
theorem accounted_run {g : TcpService C → TcpOp C → Prop}
    (hP : ∀ {s op} n m, g s op → Accountable P L s.config (s.hazard op) n m .handler) (hL : L [])
    (hrun : Transition.Run (Transition.Guarded (fun s move => g s move.1) Steps) (init C) moves s) :
    AccountedRun P L (seen moves) s := by
  refine hrun.history (I := fun moves s => AccountedRun P L (seen moves) s) ?_ ?_
  · rintro l s ⟨op, outs⟩ s' h ⟨hg, hstep⟩
    have hnext := h.step (fun n m => hP n m hg) hstep
    have hseen : seen (l ++ [(op, outs)]) = seen l ++ outs := by simp [seen]
    rwa [hseen]
  · refine ⟨invariant_init, fun he _ => ?_, fun _ _ => rfl, fun _ => hL⟩
    cases he

end TcpService

end Brickred
