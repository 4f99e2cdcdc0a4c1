import Brickred.Thread.LogAsyncSink

/-!
# What the adapted sink is given

A buffer object holds what the place says that it is in, because nobody else has it; so
the texts that have been enqueued are those that the sink has been given and those in the
objects that are on their way to it, in order.
-/

namespace Brickred

open Monitor Transition

namespace LogAsyncSink

variable {θ : Type} {s s' : LogAsyncSink θ} {e : Event θ} {t u : θ} {a x : Pointer}
  {p : Producer} {r : Place θ} {l : List (Event θ)}

/-! ## What is in the objects -/

/-- Every object grows by the default step, and holds what the place says. -/
structure Contents (s : LogAsyncSink θ) : Prop where
  expandSize : ∀ a b, s.buffers a = some b → b.expandSize = 1024
  content : ∀ a r b, s.At a r → s.buffers a = some b → s.Content b r

/-- An object that is changed. -/
theorem expandSize_update {buffers : Pointer → Option DynamicBuffer} {b' : Option DynamicBuffer}
    (h : ∀ a b, buffers a = some b → b.expandSize = 1024) (hb' : ∀ b ∈ b', b.expandSize = 1024) :
    ∀ x b, Function.update buffers a b' x = some b → b.expandSize = 1024 := by
  intro x b hb
  by_cases hxa : x = a
  · rw [hxa, Function.update_self] at hb
    exact hb' b hb
  · rw [Function.update_of_ne hxa] at hb
    exact h x b hb

/-- What is in a place that a step has nothing to do with. -/
theorem Contents.keep (hc : Contents s) {b : DynamicBuffer} (hpool : r = .pool → x ∈ s.pool)
    (hproducer : ∀ u, r = .producer u → s'.producer u = s.producer u)
    (hlog : r = .logThread → s'.logThread = s.logThread) (hx : s'.At x r)
    (hb : s.buffers x = some b) : s'.Content b r := by
  cases r with
  | pool => exact hc.content x .pool b (hpool rfl) hb
  | queue => trivial
  | producer u =>
    change (s'.producer u).held = some x at hx
    show (s'.producer u).Holds b
    rw [hproducer u rfl] at hx ⊢
    exact hc.content x (.producer u) b hx hb
  | logThread =>
    change s'.logThread.held = some x at hx
    show s'.logThread.Holds b
    rw [hlog rfl] at hx ⊢
    exact hc.content x .logThread b hx hb

/-- What a thread that logs has in its object. -/
theorem Contents.holds {b : DynamicBuffer} (hc : Contents s) (h : s.producer t = p)
    (ha : p.held = some a) (hb : s.buffers a = some b) : p.Holds b := by
  subst h
  exact hc.content a (.producer t) b ha hb

/-- The log thread clears the object that it has given to the sink. -/
theorem Contents.clear {b : DynamicBuffer} (hs : Owned s) (hc : Contents s)
    (h : s.logThread = .sunk a) (hb : s.buffers a = some b) :
    Contents { s.setBuffer a (some (b.read b.readableBytes)) with logThread := .emptied a } := by
  have hheld : s.At a .logThread := by
    show s.logThread.held = some a
    rw [h]
    rfl
  refine ⟨expandSize_update hc.expandSize ?_, fun x r b' hx hb' => ?_⟩
  · rintro _ ⟨⟩
    rw [DynamicBuffer.expandSize_read, hc.expandSize a b hb]
  change Function.update s.buffers a _ x = some b' at hb'
  have hother : r ≠ .logThread → s.At x r → s.buffers x = some b' := by
    intro hr hx
    rwa [Function.update_of_ne (hs.exclusive.ne hheld hx hr)] at hb'
  cases r with
  | pool => exact hc.keep (fun _ => hx) (fun _ _ => rfl) (by rintro ⟨⟩) hx (hother (by simp) hx)
  | producer u =>
    exact hc.keep (by rintro ⟨⟩) (fun _ _ => rfl) (by rintro ⟨⟩) hx (hother (by simp) hx)
  | queue => trivial
  | logThread =>
    cases hx
    rw [Function.update_self] at hb'
    cases hb'
    show (b.read b.readableBytes).readable = []
    rw [DynamicBuffer.readable_read, ← DynamicBuffer.length_readable, List.drop_length]

/-- An object that is empty goes back to the pool. -/
theorem Contents.returnObject (hc : Contents s) (h : s.logThread = .emptied a) :
    Contents { s with pool := s.pool ++ [a], logThread := .popping } := by
  refine ⟨hc.expandSize, fun x r b hx hb => ?_⟩
  cases r with
  | pool =>
    obtain hx | hx := List.mem_append.mp (show x ∈ s.pool ++ [a] from hx)
    · exact hc.content x .pool b hx hb
    · rw [List.mem_singleton] at hx
      subst hx
      have hempty := hc.content x .logThread b (by show s.logThread.held = _; rw [h]; rfl) hb
      change s.logThread.Holds b at hempty
      rwa [h] at hempty
  | logThread | queue => trivial
  | producer u => exact hc.keep (by rintro ⟨⟩) (fun _ _ => rfl) (by rintro ⟨⟩) hx hb

section

variable [DecidableEq θ]

/-- Only the thread that has an object is concerned when it works on it. -/
theorem Contents.edit (hs : Owned s) (hc : Contents s) {b : Option DynamicBuffer}
    (ha : (s.producer t).held = some a) (hheld : ∀ x, p.held = some x → x = a)
    (hsize : ∀ b' ∈ b, b'.expandSize = 1024) (hb : ∀ b' ∈ b, p.held = some a → p.Holds b') :
    Contents ((s.setBuffer a b).setProducer t p) where
  expandSize := expandSize_update hc.expandSize hsize
  content x r b' hx hb' := by
    have ha : s.At a (.producer t) := ha
    have hother : r ≠ .producer t → s.At x r → s.Content b' r := by
      intro hr hx
      have hxa : x ≠ a := hs.exclusive.ne ha hx hr
      refine hc.content x r b' hx ?_
      change Function.update s.buffers a b x = some b' at hb'
      rwa [Function.update_of_ne hxa] at hb'
    cases r with
    | pool | queue | logThread => exact hother nofun hx
    | producer u =>
      by_cases hut : u = t
      · subst hut
        change (Function.update s.producer u p u).held = some x at hx
        show (Function.update s.producer u p u).Holds b'
        rw [Function.update_self] at hx ⊢
        obtain rfl := hheld x hx
        refine hb b' ?_ hx
        change Function.update s.buffers x b x = some b' at hb'
        rwa [Function.update_self] at hb'
      · change (Function.update s.producer t p u).held = some x at hx
        show (Function.update s.producer t p u).Holds b'
        rw [Function.update_of_ne hut] at hx ⊢
        exact hother (fun hr => hut (by injection hr)) hx

/-- A thread gets an object, or has none. -/
theorem Contents.setProducer (hc : Contents s) (hproducer : s'.producer = s.producer)
    (hlog : s'.logThread = s.logThread) (hpool : s'.pool ⊆ s.pool)
    (hsize : ∀ a b, s'.buffers a = some b → b.expandSize = 1024)
    (hbuffers : ∀ x r, (s'.setProducer t p).At x r → r ≠ .producer t → s'.buffers x = s.buffers x)
    (hp : ∀ x b, p.held = some x → s'.buffers x = some b → p.Holds b) :
    Contents (s'.setProducer t p) where
  expandSize := hsize
  content x r b hx hb := by
    by_cases hr : r = .producer t
    · subst hr
      change (Function.update s'.producer t p t).held = some x at hx
      show (Function.update s'.producer t p t).Holds b
      rw [Function.update_self] at hx ⊢
      exact hp x b hx hb
    · refine hc.keep (fun he => ?_) (fun u hu => ?_) (fun _ => hlog) hx ((hbuffers x r hx hr).symm.trans hb)
      · subst he
        exact hpool hx
      · have hut : u ≠ t := fun hut => hr (by rw [hu, hut])
        show Function.update s'.producer t p u = s.producer u
        rw [Function.update_of_ne hut, hproducer]

/-- A thread gets an object that is new. -/
theorem Contents.allocate {b : DynamicBuffer} (hs : Owned s) (hc : Contents s)
    (ha : s.buffers a = none) (hb : DynamicBuffer.construct 1024 1024 = some b) (text : Text) :
    Contents ((s.setBuffer a (some b)).setProducer t (.taken a text)) := by
  have hsize : ∀ b' ∈ some b, b'.expandSize = 1024 := by
    rintro _ ⟨⟩
    exact DynamicBuffer.expandSize_construct hb
  refine hc.setProducer rfl rfl (fun _ => id) (expandSize_update hc.expandSize hsize)
    (fun x r hx hr => ?_) fun x b' hheld hb' => ?_
  · have hold : s.At x r := by
      cases r with
      | pool | queue | logThread => exact hx
      | producer u =>
        change (Function.update s.producer t _ u).held = some x at hx
        rwa [Function.update_of_ne fun hut => hr (by rw [hut])] at hx
    have hxa : x ≠ a := by
      rintro rfl
      exact (hs.exclusive.placed x).mpr ⟨r, hold⟩ ha
    show Function.update s.buffers a _ x = _
    rw [Function.update_of_ne hxa]
  · cases hheld
    change Function.update s.buffers a _ a = some b' at hb'
    rw [Function.update_self] at hb'
    cases hb'
    exact DynamicBuffer.readable_construct hb

/-- There is space for the text in an object that is empty. -/
theorem Contents.reserve {b b' : DynamicBuffer} {text : Text} (hs : Owned s) (hc : Contents s)
    (h : s.producer t = .taken a text) (hlt : text.length < 2 ^ 63) (hb : s.buffers a = some b)
    (hreserve : b.reserveWritableBytes text.length = some b') :
    Contents ((s.setBuffer a (some b')).setProducer t (.reserved a text)) := by
  have hempty : b.readable = [] := hc.holds h rfl hb
  have hlen := DynamicBuffer.readableBytes_eq_zero.mpr hempty
  have hfit : b.Fits text.length := by
    by_contra hfit
    have hsize := hc.expandSize a b hb
    rw [(DynamicBuffer.reserveWritableBytes_eq_none (by omega)).mpr hfit] at hreserve
    cases hreserve
  obtain ⟨b₁, e, hread, hroom, -⟩ := DynamicBuffer.reserveWritableBytes_spec hfit
  cases hreserve.symm.trans e
  refine hc.edit hs (by rw [h]; rfl) (fun x hx => by cases hx; rfl) ?_ ?_
  · rintro _ ⟨⟩
    rw [DynamicBuffer.expandSize_reserveWritableBytes hreserve, hc.expandSize a b hb]
  · rintro _ ⟨⟩ -
    exact ⟨hread.trans hempty, hroom⟩

theorem contents_step (hs : Owned s) (hc : Contents s)
    (hbound : ∀ t text, (s.producer t).text = some text → text.length < 2 ^ 63)
    (h : Step s e s') : Contents s' := by
  cases h with
  | call | release | push =>
    exact hc.setProducer rfl rfl (fun _ => id) hc.expandSize (fun _ _ _ _ => rfl)
      (by rintro _ _ ⟨⟩)
  | @reuse t text pool a h hpool =>
    refine hc.setProducer rfl rfl (fun y hy => ?_) hc.expandSize (fun _ _ _ _ => rfl)
      fun x b hheld hb => ?_
    · rw [hpool]
      exact List.mem_append_left _ hy
    · cases hheld
      refine hc.content a .pool b ?_ hb
      show a ∈ s.pool
      rw [hpool]
      exact List.mem_append_right _ List.mem_cons_self
  | allocate h hpool ha hb => exact hc.allocate hs ha hb _
  | @reserve t text a b b' h hb hreserve =>
    exact hc.reserve hs h (hbound t text (by rw [h]; rfl)) hb hreserve
  | refuse h hb =>
    exact hc.edit hs (by rw [h]; rfl) (by rintro _ ⟨⟩) (by rintro _ ⟨⟩) (by rintro _ ⟨⟩)
  | @copy t text a b b' h hb hcopy =>
    have hempty : b.readable = [] ∧ text.length ≤ b.writableBytes := hc.holds h rfl hb
    refine hc.edit hs (by rw [h]; rfl) (fun x hx => by cases hx; rfl) ?_ ?_
    · rintro _ ⟨⟩
      rw [DynamicBuffer.expandSize_copyIn hcopy, hc.expandSize a b hb]
    · rintro _ ⟨⟩ -
      show (b'.write text.length).readable = text
      rw [DynamicBuffer.readable_copyIn_write hcopy, hempty.1, List.nil_append]
  | @write t text a b h hb =>
    have hwritten : (b.write text.length).readable = text := hc.holds h rfl hb
    refine hc.edit hs (by rw [h]; rfl) (fun x hx => by cases hx; rfl) ?_ ?_
    · rintro _ ⟨⟩
      exact hc.expandSize a b hb
    · rintro _ ⟨⟩ -
      exact hwritten
  | pushWaits | popWaits | destroy | ownerWaits | ownerPush | join =>
    exact ⟨hc.expandSize, fun x r b hx hb =>
      hc.keep (fun hr => by subst hr; exact hx) (fun _ _ => rfl) (fun _ => rfl) hx hb⟩
  | @pop item m h hpop =>
    refine ⟨hc.expandSize, fun x r b hx hb => ?_⟩
    cases r with
    | logThread => cases item <;> trivial
    | queue => trivial
    | pool => exact hc.keep (fun _ => hx) (fun _ _ => rfl) (by rintro ⟨⟩) hx hb
    | producer u => exact hc.keep (by rintro ⟨⟩) (fun _ _ => rfl) (by rintro ⟨⟩) hx hb
  | sink =>
    refine ⟨hc.expandSize, fun x r b hx hb => ?_⟩
    cases r with
    | logThread | queue => trivial
    | pool => exact hc.keep (fun _ => hx) (fun _ _ => rfl) (by rintro ⟨⟩) hx hb
    | producer u => exact hc.keep (by rintro ⟨⟩) (fun _ _ => rfl) (by rintro ⟨⟩) hx hb
  | read h hb => exact hc.clear hs h hb
  | returnObject h => exact hc.returnObject h

end

/-! ## What has been enqueued -/

/-- The text that a step puts into the queue. -/
def Event.enqueuedText : Event θ → Option Text
  | .enqueued _ text => some text
  | _ => none

/-- The texts that have been put into the queue, in order. -/
def enqueued (l : List (Event θ)) : List Text := l.filterMap Event.enqueuedText

/-- What the sink has been given, and then what is on its way to it, is what has been
enqueued. -/
def InOrder (l : List (Event θ)) (s : LogAsyncSink θ) : Prop :=
  (enqueued l).map some = s.sink.map some ++ s.pending.map s.text

theorem InOrder.snoc (h : InOrder l s)
    (hstep : s'.sink.map some ++ s'.pending.map s'.text =
      s.sink.map some ++ s.pending.map s.text ++ e.enqueuedText.toList.map some) :
    InOrder (l ++ [e]) s' := by
  have hone : enqueued [e] = e.enqueuedText.toList := by
    cases he : e.enqueuedText <;> simp [enqueued, he]
  rw [InOrder, hstep, ← h, ← hone, ← List.map_append, enqueued, List.filterMap_append]
  rfl

theorem at_of_pending (h : x ∈ s.pending) : s.At x .queue ∨ s.At x .logThread := by
  obtain h | h := List.mem_append.mp h
  · refine .inr ?_
    show s.logThread.held = some x
    revert h
    cases s.logThread with
    | popped a =>
      intro h
      rw [List.mem_singleton] at h
      rw [h]
      rfl
    | _ => exact nofun
  · exact .inl h

/-- What is on its way to the sink stays as it is while another object is changed. -/
theorem map_text_update {b : Option DynamicBuffer} (ha : a ∉ s.pending) :
    s.pending.map (s.setBuffer a b).text = s.pending.map s.text := by
  refine List.map_congr_left fun x hx => ?_
  have hxa : x ≠ a := fun hxa => ha (hxa ▸ hx)
  show (Function.update s.buffers a b x).map _ = _
  rw [Function.update_of_ne hxa]
  rfl

/-- An object that another thread has is not on its way to the sink. -/
theorem not_pending (hs : Owned s) (ha : (s.producer t).held = some a) : a ∉ s.pending := by
  have ha : s.At a (.producer t) := ha
  intro hmem
  obtain h | h := at_of_pending hmem
  · exact hs.exclusive.not_at (q := .queue) ha nofun h
  · exact hs.exclusive.not_at (q := .logThread) ha nofun h

variable [DecidableEq θ]

theorem inOrder_step (hs : Owned s) (hc : Contents s) (hl : InOrder l s) (h : Step s e s') :
    InOrder (l ++ [e]) s' := by
  cases h with
  | call | release | destroy | join | reuse => exact hl.snoc (List.append_nil _).symm
  | @allocate t text a b h hpool ha =>
    have hnot : a ∉ s.pending := fun hmem => by
      obtain h | h := at_of_pending hmem
      · exact (hs.exclusive.placed a).mpr ⟨_, h⟩ ha
      · exact (hs.exclusive.placed a).mpr ⟨_, h⟩ ha
    refine hl.snoc ?_
    rw [← map_text_update hnot]
    exact (List.append_nil _).symm
  | reserve h | refuse h | copy h | write h =>
    refine hl.snoc ?_
    rw [← map_text_update (not_pending hs (by rw [h]; rfl))]
    exact (List.append_nil _).symm
  | pushWaits _ hpush | ownerWaits _ hpush =>
    refine hl.snoc ?_
    simp only [pending, queued, ConcurrentQueue.push_waits hpush]
    exact (List.append_nil _).symm
  | popWaits _ hpop =>
    refine hl.snoc ?_
    simp only [pending, queued, ConcurrentQueue.pop_waits hpop]
    exact (List.append_nil _).symm
  | @push t text a m h hpush =>
    have hqueue := ConcurrentQueue.push_done hpush
    have hheld : (s.producer t).held = some a := by rw [h]; rfl
    obtain ⟨b, hb⟩ := Option.ne_none_iff_exists'.mp ((hs.exclusive.placed a).mpr ⟨.producer t, hheld⟩)
    have htext : b.readable = text := hc.holds h rfl hb
    refine hl.snoc ?_
    show s.sink.map some ++ (_ ++ m.shared.queue.reduceOption).map s.text = _
    rw [hqueue, List.reduceOption_append, ← List.append_assoc, List.map_append, ← List.append_assoc]
    congr 1
    show [s.text a] = [some text]
    rw [LogAsyncSink.text, hb, Option.map_some, htext]
  | @pop item m h hpop =>
    have hqueue := ConcurrentQueue.pop_item hpop
    refine hl.snoc ?_
    have hpending : s.pending = (item :: m.shared.queue).reduceOption := by
      rw [pending, h, queued, hqueue]
      rfl
    rw [hpending]
    cases item with
    | none => exact (List.append_nil _).symm
    | some a => exact (List.append_nil _).symm
  | @sink a b h hb =>
    refine hl.snoc ?_
    have hpending : s.pending = a :: s.queued := by
      rw [pending, h]
      rfl
    have htext : s.text a = some b.readable := by
      rw [LogAsyncSink.text, hb]
      rfl
    rw [hpending, List.map_cons, htext]
    simp only [List.map_append, Event.enqueuedText, Option.toList_none, List.map_nil, List.append_nil,
      List.append_assoc]
    rfl
  | @read a b h hb =>
    have hheld : s.At a .logThread := by
      show s.logThread.held = some a
      rw [h]
      rfl
    have hpending : s.pending = s.queued := by
      rw [pending, h]
      rfl
    have hnot : a ∉ s.pending := by
      rw [hpending]
      exact hs.exclusive.not_at (q := .queue) hheld (by simp)
    refine hl.snoc ?_
    rw [← map_text_update hnot, hpending]
    exact (List.append_nil _).symm
  | returnObject h =>
    refine hl.snoc ?_
    have hpending : s.pending = s.queued := by
      rw [pending, h]
      rfl
    rw [hpending]
    exact (List.append_nil _).symm
  | @ownerPush m _ hpush =>
    have hqueue := ConcurrentQueue.push_done hpush
    refine hl.snoc ?_
    have hqueued : m.shared.queue.reduceOption = s.queued := by
      rw [hqueue, List.reduceOption_append]
      exact List.append_nil _
    show s.sink.map some ++ (_ ++ m.shared.queue.reduceOption).map s.text = _
    rw [hqueued]
    exact (List.append_nil _).symm

/-! ## What a thread is given -/

/-- The text that a thread is given. -/
def Event.calledText (t : θ) : Event θ → Option Text
  | .call u text => if u = t then some text else none
  | _ => none

/-- The text with which a thread is done. -/
def Event.endedText (t : θ) : Event θ → Option Text
  | .enqueued u text => if u = t then some text else none
  | .refused u text => if u = t then some text else none
  | _ => none

def calledBy (t : θ) (l : List (Event θ)) : List Text := l.filterMap (Event.calledText t)

def endedBy (t : θ) (l : List (Event θ)) : List Text := l.filterMap (Event.endedText t)

theorem text_setProducer (t u : θ) (p : Producer) :
    ((s.setProducer u p).producer t).text = if u = t then p.text else (s.producer t).text := by
  show (Function.update s.producer u p t).text = _
  split
  next hut => rw [hut, Function.update_self]
  next hut => rw [Function.update_of_ne (Ne.symm hut)]

/-- A thread is given a text when it has none, and is done with the one that it has. -/
theorem text_step (t : θ) (h : Step s e s') :
    (e.endedText t).toList ++ (s'.producer t).text.toList =
      (s.producer t).text.toList ++ (e.calledText t).toList := by
  cases h with
  | call h | refuse h | push h =>
    rw [text_setProducer]
    simp only [Event.endedText, Event.calledText]
    split
    next hut =>
      subst hut
      rw [h]
      rfl
    · exact (List.append_nil _).symm
  | reuse h | allocate h | reserve h | copy h | write h | release h =>
    rw [map_setProducer (f := Producer.text) (by show (s.producer _).text = _; rw [h]; rfl)]
    exact (List.append_nil _).symm
  | pushWaits | popWaits | pop | sink | read | returnObject | destroy | ownerWaits | ownerPush
  | join => exact (List.append_nil _).symm

/-- Each text that a thread has been given it is done with, or has now. -/
def Accounted (l : List (Event θ)) (s : LogAsyncSink θ) : Prop :=
  ∀ t, calledBy t l = endedBy t l ++ (s.producer t).text.toList

theorem accounted_step (hl : Accounted l s) (h : Step s e s') : Accounted (l ++ [e]) s' := by
  intro t
  have hone : ∀ f : Event θ → Option Text, List.filterMap f [e] = (f e).toList := fun f => by
    cases hf : f e <;> simp [hf]
  rw [calledBy, endedBy, List.filterMap_append, List.filterMap_append, hone, hone, List.append_assoc,
    text_step t h, ← List.append_assoc]
  exact congrArg (· ++ _) (hl t)

/-- No text is larger than an array can be. -/
def Bounded (s : LogAsyncSink θ) : Prop :=
  ∀ t text, (s.producer t).text = some text → text.length < 2 ^ 63

theorem bounded_step (hs : Bounded s) (h : Step s e s') : Bounded s' := by
  intro t text htext
  have hmem : text ∈ (s.producer t).text.toList ++ (e.calledText t).toList := by
    rw [← text_step t h, htext]
    exact List.mem_append_right _ (List.mem_singleton.mpr rfl)
  obtain hold | hnew := List.mem_append.mp hmem
  · exact hs t text (Option.mem_toList.mp hold)
  · cases h with
    | call _ _ hsize =>
      simp only [Event.calledText] at hnew
      split at hnew
      · rw [Option.toList_some, List.mem_singleton] at hnew
        rwa [hnew]
      · cases hnew
    | _ => cases hnew

/-- `log` throws only if the object would have to be larger than an array can be. -/
theorem refused_length {text : Text} (hc : Contents s) (hs : Bounded s)
    (h : Step s (.refused t text) s') : 2 ^ 63 ≤ text.length + 1024 := by
  cases h with
  | @refuse _ _ a b h hb hreserve =>
    have hempty : b.readable = [] := hc.holds h rfl hb
    have hsize := hc.expandSize a b hb
    have hread := DynamicBuffer.readableBytes_eq_zero.mpr hempty
    have hlt := hs t text (by rw [h]; rfl)
    have hfit := (DynamicBuffer.reserveWritableBytes_eq_none (by omega)).mp hreserve
    by_contra hle
    exact hfit (DynamicBuffer.fits_of_lt (by omega))

/-! ## The end of the queue -/

/-- The null pointer that the destructor puts into the queue, until the log thread takes
it out. -/
def sentinel (s : LogAsyncSink θ) : List (Option Pointer) :=
  if s.owner = .joining ∧ s.logThread ≠ .finished then [none] else []

omit [DecidableEq θ] in
theorem sentinel_of_ne (h : s.logThread ≠ .finished) :
    s.sentinel = if s.owner = .joining then [none] else [] := by
  rw [sentinel]
  simp only [h, ne_eq, not_false_eq_true, and_true]

omit [DecidableEq θ] in
theorem sentinel_of_owner {o : Owner} (h : s.owner = o) (ho : o ≠ .joining) : s.sentinel = [] :=
  if_neg fun he => ho (h.symm.trans he.1)

/-- How far the destructor is: there is nothing in the queue behind the null pointer. -/
structure Closing (s : LogAsyncSink θ) : Prop where
  idle : s.owner ≠ .running → ∀ t, s.producer t = .idle
  queue : s.queue.shared.queue = s.queued.map some ++ s.sentinel
  finished : s.logThread = .finished →
    s.queue.shared.queue = [] ∧ (s.owner = .joining ∨ s.owner = .destroyed)
  destroyed : s.owner = .destroyed → s.logThread = .finished

omit [DecidableEq θ] in
theorem Closing.init (queueSize : Nat) : Closing (init θ queueSize) :=
  ⟨fun h => absurd rfl h, rfl, nofun, nofun⟩

omit [DecidableEq θ] in
/-- While a thread is in `log` the destructor has not been called. -/
theorem Closing.running (hs : Closing s) (h : s.producer t ≠ .idle) : s.owner = .running := by
  by_contra hne
  exact h (hs.idle hne t)

omit [DecidableEq θ] in
/-- Until the destructor waits for it the log thread does not end. -/
theorem Closing.not_finished {o : Owner} (hs : Closing s) (h : s.owner = o)
    (hjoining : o ≠ .joining) (hdestroyed : o ≠ .destroyed) : s.logThread ≠ .finished := by
  intro hfinished
  obtain hclosed | hclosed := (hs.finished hfinished).2
  · exact hjoining (h.symm.trans hclosed)
  · exact hdestroyed (h.symm.trans hclosed)

/-- A thread does something in `log`. -/
theorem Closing.setProducer (hs : Closing s) (howner : s.owner = .running)
    (howner' : s'.owner = s.owner) (hqueue : s'.queue.shared = s.queue.shared)
    (hlog : s'.logThread = s.logThread) : Closing (s'.setProducer t p) where
  idle h := absurd (howner'.trans howner) h
  queue := by
    show s'.queue.shared.queue = s'.queue.shared.queue.reduceOption.map some ++ s'.sentinel
    rw [hqueue, sentinel, howner', hlog]
    exact hs.queue
  finished h := by
    show s'.queue.shared.queue = [] ∧ (s'.owner = _ ∨ s'.owner = _)
    rw [hqueue, howner']
    exact hs.finished (hlog.symm.trans h)
  destroyed h := absurd ((howner'.trans howner).symm.trans h) nofun

omit [DecidableEq θ] in
/-- A thread waits on the queue. -/
theorem Closing.setQueue {m : State (Actor θ) (ConcurrentQueue (Option Pointer))
      (ConcurrentQueue.Call (Option Pointer)) ConcurrentQueue.Cond} (hs : Closing s)
    (hshared : m.shared = s.queue.shared) : Closing { s with queue := m } where
  idle := hs.idle
  queue := by
    simp only [queued, hshared]
    exact hs.queue
  finished := by
    simp only [hshared]
    exact hs.finished
  destroyed := hs.destroyed

theorem closing_step (hs : Closing s) (h : Step s e s') : Closing s' := by
  cases h with
  | call h howner => exact hs.setProducer howner rfl rfl rfl
  | reuse h | allocate h | reserve h | refuse h | copy h | write h | release h =>
    exact hs.setProducer (hs.running (by rw [h]; simp)) rfl rfl rfl
  | pushWaits _ hpush | ownerWaits _ hpush => exact hs.setQueue (ConcurrentQueue.push_waits hpush)
  | popWaits _ hpop => exact hs.setQueue (ConcurrentQueue.pop_waits hpop)
  | @push t text a m h hpush =>
    have hqueue := ConcurrentQueue.push_done hpush
    have howner := hs.running (t := t) (by simp [h])
    have hopen := sentinel_of_owner howner (by simp)
    refine ⟨fun hne => absurd howner hne, ?_,
      fun hfinished => absurd hfinished (hs.not_finished howner (by simp) (by simp)),
      fun hdestroyed => absurd (howner.symm.trans hdestroyed) (by simp)⟩
    show m.shared.queue = m.shared.queue.reduceOption.map some ++ s.sentinel
    have hold := hs.queue
    rw [hopen, List.append_nil] at hold ⊢
    rw [hqueue, List.reduceOption_append, List.map_append]
    exact congrArg (· ++ [some a]) hold
  | @pop item m h hpop =>
    have hqueue := ConcurrentQueue.pop_item hpop
    have hold := hs.queue
    rw [queued, hqueue, sentinel_of_ne (by simp [h])] at hold
    have hdestroyed : s.owner ≠ .destroyed := fun he => absurd (h.symm.trans (hs.destroyed he)) (by simp)
    cases item with
    | none =>
      have hempty : m.shared.queue = [] ∧ s.owner = .joining := by
        change none :: m.shared.queue = m.shared.queue.reduceOption.map some ++ _ at hold
        cases hqueued : m.shared.queue.reduceOption with
        | cons a as =>
          rw [hqueued] at hold
          cases hold
        | nil =>
          rw [hqueued] at hold
          split at hold
          next hjoining =>
            injection hold with _ htail
            exact ⟨htail, hjoining⟩
          · cases hold
      refine ⟨hs.idle, ?_, fun _ => ⟨hempty.1, .inl hempty.2⟩, fun _ => rfl⟩
      show m.shared.queue = m.shared.queue.reduceOption.map some ++ _
      rw [hempty.1, sentinel, if_neg fun he => he.2 rfl]
      rfl
    | some a =>
      refine ⟨hs.idle, ?_, by simp, fun he => absurd he hdestroyed⟩
      rw [sentinel_of_ne LogThread.noConfusion]
      exact (List.cons_eq_cons.mp hold).2
  | sink h | read h | returnObject h =>
    refine ⟨hs.idle, ?_, by simp, fun he => absurd (h.symm.trans (hs.destroyed he)) (by simp)⟩
    have hold := hs.queue
    rw [sentinel_of_ne (by simp [h])] at hold
    rw [sentinel_of_ne LogThread.noConfusion]
    exact hold
  | destroy h hidle =>
    have hopen := sentinel_of_owner h (by simp)
    have hrunning := hs.not_finished h (by simp) (by simp)
    refine ⟨fun _ => hidle, ?_, fun hfinished => absurd hfinished hrunning, by simp⟩
    have hold := hs.queue
    rw [hopen] at hold
    exact hold
  | @ownerPush m h hpush =>
    have hqueue := ConcurrentQueue.push_done hpush
    have hopen := sentinel_of_owner h (by simp)
    have hrunning := hs.not_finished h (by simp) (by simp)
    refine ⟨fun _ => hs.idle (by simp [h]), ?_, fun hfinished => absurd hfinished hrunning, by simp⟩
    have hold := hs.queue
    rw [hopen, List.append_nil] at hold
    show m.shared.queue = m.shared.queue.reduceOption.map some ++ _
    rw [hqueue, List.reduceOption_append, List.map_append, sentinel, if_pos ⟨rfl, hrunning⟩]
    exact congrArg (· ++ [none]) (hold.trans (List.append_nil _).symm)
  | join h hfinished =>
    obtain ⟨hempty, -⟩ := hs.finished hfinished
    refine ⟨fun _ => hs.idle (by simp [h]), ?_, fun _ => ⟨hempty, .inr rfl⟩, fun _ => hfinished⟩
    show s.queue.shared.queue = s.queue.shared.queue.reduceOption.map some ++ _
    rw [hempty]
    rfl

/-! ## Runs -/

/-- What holds in every run, with what has been done in it. -/
structure Kept (l : List (Event θ)) (s : LogAsyncSink θ) : Prop where
  owned : Owned s
  contents : Contents s
  bounded : Bounded s
  inOrder : InOrder l s
  accounted : Accounted l s
  closing : Closing s
  refused : ∀ t text, .refused t text ∈ l → 2 ^ 63 ≤ text.length + 1024

theorem Kept.init (queueSize : Nat) : Kept [] (init θ queueSize) where
  owned := .init queueSize
  contents := ⟨fun _ _ h => (by cases h), fun _ _ _ _ h => (by cases h)⟩
  bounded _ _ h := by cases h
  inOrder := rfl
  accounted _ := rfl
  closing := .init queueSize
  refused := by simp

theorem Kept.step (hs : Kept l s) (h : Step s e s') : Kept (l ++ [e]) s' where
  owned := owned_step hs.owned h
  contents := contents_step hs.owned hs.contents hs.bounded h
  bounded := bounded_step hs.bounded h
  inOrder := inOrder_step hs.owned hs.contents hs.inOrder h
  accounted := accounted_step hs.accounted h
  closing := closing_step hs.closing h
  refused t text hmem := by
    obtain hmem | hmem := List.mem_append.mp hmem
    · exact hs.refused t text hmem
    · rw [List.mem_singleton] at hmem
      subst hmem
      exact refused_length hs.contents hs.bounded h

theorem Kept.run {queueSize : Nat} (h : Run Step (LogAsyncSink.init θ queueSize) l s) : Kept l s :=
  h.history (fun hs hstep => hs.step hstep) (.init queueSize)

/-- When the log thread has gone through the null pointer, nothing is left. -/
theorem Kept.destroyed (hs : Kept l s) (h : s.owner = .destroyed) :
    s.sink = enqueued l ∧ ∀ t, calledBy t l = endedBy t l := by
  have hfinished := hs.closing.destroyed h
  constructor
  · have hpending : s.pending = [] := by
      rw [pending, hfinished, queued, (hs.closing.finished hfinished).1]
      rfl
    have horder := hs.inOrder
    rw [InOrder, hpending, List.map_nil, List.append_nil] at horder
    exact (List.map_inj_right fun _ _ he => Option.some.inj he).mp horder |>.symm
  · intro t
    rw [hs.accounted t, hs.closing.idle (by simp [h]) t]
    exact List.append_nil _

/-- In every run each buffer object is in exactly one place, and there once; an object that
a thread has got from the pool is empty, and one in which it has reserved space takes the
text; the sink has been given the texts that have been enqueued, up to those in the
objects that are on their way to it, in order; each thread is done with the texts that it
has been given up to the one that it has now, and `log` throws only if an array of
`PTRDIFF_MAX` bytes would not do. When the destructor has returned, the sink has been given
all texts that have been enqueued, and no thread has one left. -/
theorem run_logs {queueSize : Nat} (h : Run Step (LogAsyncSink.init θ queueSize) l s) :
    (∀ a, s.buffers a ≠ none → ∃! r, s.At a r) ∧ (∀ a r, s.At a r → s.buffers a ≠ none) ∧
      s.pool.Nodup ∧ s.queued.Nodup ∧
      (∀ t a text b, s.producer t = .taken a text → s.buffers a = some b → b.readable = []) ∧
      (∀ t a text b, s.producer t = .reserved a text → s.buffers a = some b →
        ∃ b', b.copyIn text = some b') ∧
      (enqueued l).map some = s.sink.map some ++ s.pending.map s.text ∧
      (∀ t, calledBy t l = endedBy t l ++ (s.producer t).text.toList) ∧
      (∀ t text, .refused t text ∈ l → 2 ^ 63 ≤ text.length + 1024) ∧
      (s.owner = .destroyed → s.sink = enqueued l ∧ ∀ t, calledBy t l = endedBy t l) := by
  have hs := Kept.run h
  refine ⟨fun a => hs.owned.exclusive.existsUnique,
    fun a r hr => (hs.owned.exclusive.placed a).mpr ⟨r, hr⟩, hs.owned.pool, hs.owned.queue,
    fun t a text b ht hb => ?_, fun t a text b ht hb => ?_, hs.inOrder, hs.accounted, hs.refused,
    hs.destroyed⟩
  · have := hs.contents.content a (.producer t) b (by show (s.producer t).held = _; rw [ht]; rfl) hb
    rwa [Content, ht] at this
  · have := hs.contents.content a (.producer t) b (by show (s.producer t).held = _; rw [ht]; rfl) hb
    rw [Content, ht] at this
    obtain ⟨b', hcopy, -⟩ := DynamicBuffer.copyIn_write this.2
    exact ⟨b', hcopy⟩

/-- What an empty buffer object goes through that takes one byte and is read. -/
theorem exists_logged {b : DynamicBuffer} (hread : b.readable = []) (hsize : b.expandSize = 1024)
    (c : UInt8) : ∃ b₁ b₂, b.reserveWritableBytes 1 = some b₁ ∧ b₁.copyIn [c] = some b₂ ∧
      ((b₂.write 1).read (b₂.write 1).readableBytes).readable = [] ∧
      ((b₂.write 1).read (b₂.write 1).readableBytes).expandSize = 1024 := by
  have hused := DynamicBuffer.readableBytes_eq_zero.mpr hread
  have hfit : b.Fits 1 := DynamicBuffer.fits_of_lt (by rw [hused, hsize]; decide)
  obtain ⟨b₁, hreserve, -, hroom, -⟩ := DynamicBuffer.reserveWritableBytes_spec hfit
  obtain ⟨b₂, hcopy, -⟩ := @DynamicBuffer.copyIn_write _ [c] hroom
  refine ⟨b₁, b₂, hreserve, hcopy, ?_, ?_⟩
  · rw [DynamicBuffer.readable_read, ← DynamicBuffer.length_readable, List.drop_length]
  · rw [DynamicBuffer.expandSize_read]
    exact (DynamicBuffer.expandSize_copyIn hcopy).trans
      ((DynamicBuffer.expandSize_reserveWritableBytes hreserve).trans hsize)

/-- Two threads log a byte each, side by side; one of them logs another one in the object that
has come back first, while the other object is in the queue. -/
theorem run_logs_reuse : ∃ (l : List (Event Bool)) (s : LogAsyncSink Bool),
    Run Step (LogAsyncSink.init Bool 2) l s ∧ enqueued l = [[7], [8], [9]] ∧
      s.owner = .destroyed ∧ s.sink = enqueued l := by
  obtain ⟨b, hb⟩ : ∃ b, DynamicBuffer.construct 1024 1024 = some b := ⟨_, rfl⟩
  have hread := DynamicBuffer.readable_construct hb
  have hsize := DynamicBuffer.expandSize_construct hb
  obtain ⟨b₁, b₂, hreserve, hcopy, hread', hsize'⟩ := exists_logged hread hsize 7
  obtain ⟨c₁, c₂, hreserveC, hcopyC, -⟩ := exists_logged hread hsize 8
  obtain ⟨d₁, d₂, hreserveD, hcopyD, -⟩ := exists_logged hread' hsize' 9
  have hrun : Run Step (LogAsyncSink.init Bool 2)
      [.call true [7], .call false [8], .other, .other, .other, .other, .other, .other, .other,
        .other, .enqueued true [7], .enqueued false [8], .other, .other, .other, .other, .other,
        .call true [9], .other, .other, .other, .other, .enqueued true [9], .other, .other, .other,
        .other, .other, .other, .other, .other, .other, .other, .other, .other, .other, .other] _ :=
    .cons (.call rfl rfl (by decide)) <|
    .cons (.call rfl rfl (by decide)) <|
    .cons (.allocate (t := true) (a := 0) rfl rfl rfl hb) <|
    .cons (.allocate (t := false) (a := 1) rfl rfl rfl hb) <|
    .cons (.reserve (t := true) rfl rfl hreserve) <|
    .cons (.reserve (t := false) rfl rfl hreserveC) <|
    .cons (.copy (t := true) rfl rfl hcopy) <|
    .cons (.write (t := true) rfl rfl) <|
    .cons (.copy (t := false) rfl rfl hcopyC) <|
    .cons (.write (t := false) rfl rfl) <|
    .cons (.push rfl (.returns trivial rfl (.missed nofun))) <|
    .cons (.push rfl (.returns trivial rfl (.missed nofun))) <|
    .cons (.pop rfl (.returns trivial rfl (.missed nofun))) <|
    .cons (.sink rfl rfl) <|
    .cons (.read rfl rfl) <|
    .cons (.release (t := true) rfl) <|
    .cons (.returnObject rfl) <|
    .cons (.call rfl rfl (by decide)) <|
    .cons (.reuse (t := true) rfl rfl) <|
    .cons (.reserve (t := true) rfl rfl hreserveD) <|
    .cons (.copy (t := true) rfl rfl hcopyD) <|
    .cons (.write (t := true) rfl rfl) <|
    .cons (.push rfl (.returns trivial rfl (.missed nofun))) <|
    .cons (.pop rfl (.returns trivial rfl (.missed nofun))) <|
    .cons (.sink rfl rfl) <|
    .cons (.read rfl rfl) <|
    .cons (.returnObject rfl) <|
    .cons (.release (t := false) rfl) <|
    .cons (.release (t := true) rfl) <|
    .cons (.pop rfl (.returns trivial rfl (.missed nofun))) <|
    .cons (.sink rfl rfl) <|
    .cons (.read rfl rfl) <|
    .cons (.returnObject rfl) <|
    .cons (.destroy rfl fun t => by cases t <;> rfl) <|
    .cons (.ownerPush rfl (.returns trivial rfl (.missed nofun))) <|
    .cons (.pop rfl (.returns trivial rfl (.missed nofun))) <|
    .cons (.join rfl rfl) .nil
  exact ⟨_, _, hrun, rfl, rfl, ((run_logs hrun).2.2.2.2.2.2.2.2.2 rfl).1⟩

end LogAsyncSink

end Brickred
