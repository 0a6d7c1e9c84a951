import CexAggregator.ConnectionLifecycle
import Mathlib.Data.List.Infix

/-!
# The queue of a connection and the wire

Next to the connection stand the payloads `Send` has been given, those whose writes have been
started, each with its number among the former, and the closes that have been started.
-/

namespace CexAggregator

structure Wire where
  sent : List String := []
  started : List (String × ℕ) := []
  closesStarted : ℕ := 0
  deferralsKept : Bool := true

/-- The write that brings the number of those in flight above `writes`: it is of the front of
the queue, which holds the last of the payloads. -/
def startedBy (sent : List String) (writes : ℕ) (c : WsConnection) : List (String × ℕ) :=
  if writes < c.writes then
    (c.writeQueue.head?.map fun payload => (payload, sent.length - c.writeQueue.length)).toList
  else []

section Numbers
variable {sent : List String} {started : List (String × ℕ)} {front : String} {queue : List String}

theorem number_of_inOrder {number : ℕ} (h : started ++ [(front, number)] <+: sent.zipIdx) :
    number = started.length := by
  have hlast : sent.zipIdx[started.length]? = some (front, number) := by
    obtain ⟨rest, hrest⟩ := h
    rw [← hrest]
    simp
  rw [List.getElem?_zipIdx, Option.map_eq_some_iff] at hlast
  obtain ⟨_, -, heq⟩ := hlast
  simpa using (congrArg Prod.snd heq).symm

theorem inOrder_snoc (h : started <+: sent.zipIdx) (hqueue : front :: queue <:+ sent)
    (hlength : started.length + (front :: queue).length = sent.length) :
    started ++ [(front, sent.length - (front :: queue).length)] <+: sent.zipIdx := by
  obtain ⟨before, rfl⟩ := hqueue
  have hbefore : before.length = started.length := by
    rw [List.length_append] at hlength
    omega
  have hsplit : (before ++ front :: queue).zipIdx =
      before.zipIdx ++ (front, before.length) :: queue.zipIdx (before.length + 1) := by
    rw [List.zipIdx_append, List.zipIdx_cons, Nat.zero_add]
  rw [hsplit] at h ⊢
  have hstarted : started = before.zipIdx := by
    refine (List.prefix_of_prefix_length_le h (List.prefix_append _ _) ?_).eq_of_length ?_
    · rw [List.length_zipIdx, hbefore]
    · rw [List.length_zipIdx, hbefore]
  have hnumber : (before ++ front :: queue).length - (front :: queue).length = before.length := by
    rw [List.length_append, Nat.add_sub_cancel]
  rw [hnumber, ← hstarted]
  exact ⟨queue.zipIdx (before.length + 1), by simp⟩

end Numbers

/-- The write of the payload at the front of the queue has been started. -/
def Wire.Ahead (w : Wire) (c : WsConnection) : Prop :=
  w.sent.length < w.started.length + c.writeQueue.length

structure Wired (w : Wire) (c : WsConnection) (begun : Bool) (resumption : Option Resumption) :
    Prop where
  writes : c.writes = if c.writing then 1 else 0
  closes : c.closes ≤ w.closesStarted
  closedOnce : w.closesStarted ≤ 1
  closed : w.closesStarted ≠ 0 → c.state ≠ .kOpen ∧ c.writing = false
  deferralsKept : w.deferralsKept = true
  inOrder : w.started <+: w.sent.zipIdx
  queued : c.writeQueue <:+ w.sent
  lower : w.sent.length ≤ w.started.length + c.writeQueue.length
  upper : w.started.length + c.writeQueue.length ≤ w.sent.length + 1
  writing : c.writing = true → w.Ahead c ∧ (c.state = .kOpen ∨ c.finished = true)
  ahead : w.Ahead c → c.writing = false → c.state = .kOpen →
    c.finished = true ∧ resumption ≠ some .afterOpen
  unbegun : begun = false → c.opening = none
  early : begun = false ∨ c.opening.isSome = true →
    w.started = [] ∧ w.closesStarted = 0 ∧ c.writing = false ∧ c.state ≠ .kOpen

/-- An open connection leaves no payload waiting, except for one whose write has failed. -/
def Emptied (w : Wire) (c : WsConnection) (resumption : Option Resumption) : Prop :=
  c.state = .kOpen → c.writing = false → resumption ≠ some .afterOpen → c.writeQueue ≠ [] →
    w.Ahead c

section Wired
variable {w : Wire} {c c' : WsConnection} {begun : Bool}
  {resumption resumption' : Option Resumption}

structure Calm (c c' : WsConnection) : Prop where
  queue : c'.writeQueue = c.writeQueue
  writing : c'.writing = c.writing
  writes : c'.writes = c.writes
  closes : c'.closes = c.closes
  state : c'.state = .kOpen → c.state = .kOpen
  finished : c.finished = true → c'.finished = true
  lost : c.state = .kOpen → c'.state = .kOpen ∨ c'.finished = true
  opening : c'.opening.isSome = true → c.opening.isSome = true

theorem Calm.aside {pending : Bool} {payload : String} {intervalSeconds : ℕ} {timer : Timer}
    {reads : ℕ} :
    Calm c { c with
      closePending := pending
      keepalivePayload := payload
      keepaliveIntervalSeconds := intervalSeconds
      keepaliveTimer := timer
      reads := reads } :=
  ⟨rfl, rfl, rfl, rfl, id, id, Or.inl, id⟩

theorem Calm.refl (c : WsConnection) : Calm c c := .aside

theorem Calm.trans {c'' : WsConnection} (h : Calm c c') (h' : Calm c' c'') : Calm c c'' where
  queue := h'.queue.trans h.queue
  writing := h'.writing.trans h.writing
  writes := h'.writes.trans h.writes
  closes := h'.closes.trans h.closes
  state hopen := h.state (h'.state hopen)
  finished hfinished := h'.finished (h.finished hfinished)
  lost hopen := (h.lost hopen).elim h'.lost fun hfinished => Or.inr (h'.finished hfinished)
  opening hsome := h.opening (h'.opening hsome)

theorem finish_calm (c : WsConnection) : Calm c c.finish.1 := by
  unfold WsConnection.finish
  split_ifs
  · exact .refl c
  · refine ⟨rfl, rfl, rfl, rfl, ?_, fun _ => rfl, fun _ => Or.inr rfl, id⟩
    intro hopen
    cases hopen

theorem doRead_calm (c : WsConnection) : Calm c c.doRead := by
  unfold WsConnection.doRead
  split_ifs
  · exact .refl c
  · exact .aside

theorem armKeepalive_calm (c : WsConnection) : Calm c c.armKeepalive := by
  unfold WsConnection.armKeepalive
  split_ifs
  · exact .refl c
  · exact .aside

theorem onKeepalive_open (hopen : c.state = .kOpen) :
    c.onKeepalive = (c.send c.keepalivePayload).armKeepalive := if_neg (not_not.mpr hopen)

theorem startKeepalive_calm (c : WsConnection) (payload : String) (intervalSeconds : ℕ) :
    Calm c (c.startKeepalive payload intervalSeconds) := by
  unfold WsConnection.startKeepalive
  split_ifs
  · exact .refl c
  · refine Calm.trans ?_ (armKeepalive_calm _)
    exact .aside

theorem startedBy_calm {sent : List String} {writes : ℕ} (h : Calm c c') :
    startedBy sent writes c' = startedBy sent writes c := by
  rw [startedBy, startedBy, h.writes, h.queue]

theorem Wired.calm (h : Wired w c begun resumption) (hcalm : Calm c c')
    (hresumption : resumption' = some .afterOpen → resumption = some .afterOpen) :
    Wired w c' begun resumption' where
  writes := by rw [hcalm.writes, hcalm.writing, h.writes]
  closes := hcalm.closes ▸ h.closes
  closedOnce := h.closedOnce
  closed hsome := by
    obtain ⟨hstate, hwriting⟩ := h.closed hsome
    exact ⟨fun hopen => hstate (hcalm.state hopen), hcalm.writing.trans hwriting⟩
  deferralsKept := h.deferralsKept
  inOrder := h.inOrder
  queued := hcalm.queue ▸ h.queued
  lower := hcalm.queue ▸ h.lower
  upper := hcalm.queue ▸ h.upper
  writing hwriting := by
    rw [hcalm.writing] at hwriting
    obtain ⟨hahead, hopen⟩ := h.writing hwriting
    unfold Wire.Ahead
    rw [hcalm.queue]
    exact ⟨hahead, hopen.elim hcalm.lost fun hfinished => Or.inr (hcalm.finished hfinished)⟩
  ahead hahead hwriting hopen := by
    unfold Wire.Ahead at hahead
    rw [hcalm.queue] at hahead
    rw [hcalm.writing] at hwriting
    obtain ⟨hfinished, hnot⟩ := h.ahead hahead hwriting (hcalm.state hopen)
    exact ⟨hcalm.finished hfinished, fun hafter => hnot (hresumption hafter)⟩
  unbegun hbegun := by
    by_contra hne
    have hsome := hcalm.opening (Option.isSome_iff_ne_none.mpr hne)
    rw [h.unbegun hbegun] at hsome
    cases hsome
  early hearly := by
    obtain ⟨hstarted, hclosed, hwriting, hstate⟩ := h.early (hearly.imp_right hcalm.opening)
    exact ⟨hstarted, hclosed, hcalm.writing.trans hwriting, fun hopen => hstate (hcalm.state hopen)⟩

theorem Emptied.calm (h : Emptied w c resumption) (hcalm : Calm c c')
    (hresumption : resumption = some .afterOpen → resumption' = some .afterOpen) :
    Emptied w c' resumption' := by
  intro hopen hwriting hnot hsome
  unfold Wire.Ahead
  rw [hcalm.queue] at hsome ⊢
  exact h (hcalm.state hopen) (hcalm.writing ▸ hwriting) (fun hafter => hnot (hresumption hafter))
    hsome

theorem Wired.not_ahead_of_started (h : Wired w c begun resumption) (hnone : w.started = []) :
    ¬ w.Ahead c := by
  have hlength := h.queued.length_le
  unfold Wire.Ahead
  rw [hnone, List.length_nil]
  omega

theorem ahead_queue (w : Wire) (c : WsConnection) (payload : String) :
    Wire.Ahead { w with sent := w.sent ++ [payload] }
      { c with writeQueue := c.writeQueue ++ [payload] } ↔ w.Ahead c := by
  simp only [Wire.Ahead, List.length_append, List.length_singleton]
  omega

theorem Wired.queue (h : Wired w c begun resumption) (payload : String) :
    Wired { w with sent := w.sent ++ [payload] }
      { c with writeQueue := c.writeQueue ++ [payload] } begun resumption := by
  refine ⟨h.writes, h.closes, h.closedOnce, h.closed, h.deferralsKept, ?_, ?_, ?_, ?_, ?_, ?_,
    h.unbegun, h.early⟩
  · refine h.inOrder.trans ?_
    rw [List.zipIdx_append]
    exact List.prefix_append _ _
  · obtain ⟨before, hbefore⟩ := h.queued
    exact ⟨before, by rw [← List.append_assoc, hbefore]⟩
  · have hlower := h.lower
    simp only [List.length_append, List.length_singleton]
    omega
  · have hupper := h.upper
    simp only [List.length_append, List.length_singleton]
    omega
  · exact fun hwriting => (h.writing hwriting).imp_left (ahead_queue w c payload).mpr
  · exact fun hyes => h.ahead ((ahead_queue w c payload).mp hyes)

theorem doWrite_eq (c : WsConnection) :
    c.doWrite = c ∧ (c.writeQueue = [] ∨ c.state ≠ .kOpen) ∨
      c.doWrite = { c with writing := true, writes := c.writes + 1 } ∧
        c.writeQueue ≠ [] ∧ c.state = .kOpen := by
  unfold WsConnection.doWrite
  split_ifs with hnone
  · exact Or.inl ⟨rfl, hnone⟩
  · rw [not_or, not_not] at hnone
    exact Or.inr ⟨rfl, hnone⟩

theorem Wired.doWrite (h : Wired w c begun resumption) (hwriting : c.writing = false)
    (hfresh : c.state = .kOpen → ¬ w.Ahead c) :
    Wired { w with started := w.started ++ startedBy w.sent c.writes c.doWrite } c.doWrite begun
      resumption' := by
  rcases doWrite_eq c with ⟨heq, hnone⟩ | ⟨heq, hsome, hopen⟩
  · rw [heq, startedBy, if_neg (Nat.lt_irrefl _), List.append_nil]
    exact ⟨h.writes, h.closes, h.closedOnce, h.closed, h.deferralsKept, h.inOrder, h.queued,
      h.lower, h.upper, h.writing, fun hahead _ hopen => (hfresh hopen hahead).elim, h.unbegun,
      h.early⟩
  · obtain ⟨front, queue, hqueue⟩ := List.exists_cons_of_ne_nil hsome
    have hnot := hfresh hopen
    have hlower := h.lower
    have hqueued := h.queued
    unfold Wire.Ahead at hnot
    rw [hqueue] at hnot hlower hqueued
    have hstarted : startedBy w.sent c.writes c.doWrite =
        [(front, w.sent.length - (front :: queue).length)] := by
      rw [heq, startedBy, if_pos (Nat.lt_succ_self _)]
      simp [hqueue]
    rw [hstarted, heq]
    have hahead : Wire.Ahead
        { w with started := w.started ++ [(front, w.sent.length - (front :: queue).length)] }
        { c with writing := true, writes := c.writes + 1 } := by
      simp only [Wire.Ahead, hqueue, List.length_append, List.length_singleton]
      omega
    have hearly : ¬ (begun = false ∨ c.opening.isSome = true) := fun hearly =>
      (h.early hearly).2.2.2 hopen
    refine ⟨?_, h.closes, h.closedOnce, fun hclosed => ?_, h.deferralsKept, ?_, h.queued, ?_, ?_,
      ?_, ?_, h.unbegun, fun hyes => (hearly hyes).elim⟩
    · have hwrites := h.writes
      rw [hwriting] at hwrites
      simp [hwrites]
    · exact ((h.closed hclosed).1 hopen).elim
    · exact inOrder_snoc h.inOrder hqueued (by omega)
    · simp only [hqueue, List.length_append, List.length_singleton]
      omega
    · simp only [hqueue, List.length_append, List.length_singleton]
      omega
    · exact fun _ => ⟨hahead, Or.inl hopen⟩
    · exact fun _ hidle => (Bool.false_ne_true hidle.symm).elim

theorem emptied_doWrite (w : Wire) (c : WsConnection) (resumption : Option Resumption) :
    Emptied w c.doWrite resumption := by
  intro hopen hwriting _ hsome
  rcases doWrite_eq c with ⟨heq, hnone⟩ | ⟨heq, -, -⟩
  · rw [heq] at hopen hsome
    exact (hnone.elim hsome fun hnot => hnot hopen).elim
  · rw [heq] at hwriting
    cases hwriting

theorem close_eq (c : WsConnection) :
    c.close.1 = c.finish.1 ∧ c.state ≠ .kOpen ∨
      c.close.1 = { c with closePending := true } ∧ c.state = .kOpen ∧ c.writing = true ∨
      c.close.1 = { c with
        state := .kClosed
        keepaliveTimer := c.keepaliveTimer.cancel
        closes := c.closes + 1 } ∧ c.state = .kOpen ∧ c.writing = false := by
  unfold WsConnection.close
  split_ifs with hopen hwriting
  · exact Or.inl ⟨rfl, hopen⟩
  · exact Or.inr (Or.inl ⟨rfl, not_not.mp hopen, hwriting⟩)
  · exact Or.inr (Or.inr ⟨rfl, not_not.mp hopen, Bool.not_eq_true _ ▸ hwriting⟩)

theorem Wired.close (h : Wired w c begun resumption) :
    Wired { w with closesStarted := w.closesStarted + (c.close.1.closes - c.closes) } c.close.1
      begun resumption := by
  rcases close_eq c with ⟨heq, -⟩ | ⟨heq, -, -⟩ | ⟨heq, hopen, hwriting⟩
  · rw [heq, (finish_calm c).closes, Nat.sub_self]
    exact h.calm (finish_calm c) id
  · rw [heq, Nat.sub_self]
    exact h.calm .aside id
  · have hnone : w.closesStarted = 0 := by
      by_contra hsome
      exact (h.closed hsome).1 hopen
    have hcloses := h.closes
    have hearly : ¬ (begun = false ∨ c.opening.isSome = true) := fun hearly =>
      (h.early hearly).2.2.2 hopen
    rw [heq]
    refine ⟨h.writes, ?_, ?_, fun _ => ⟨by simp, hwriting⟩, h.deferralsKept, h.inOrder, h.queued,
      h.lower, h.upper, ?_, ?_, h.unbegun, fun hyes => (hearly hyes).elim⟩
    · simp only
      omega
    · simp only
      omega
    · intro hyes
      rw [hwriting] at hyes
      cases hyes
    · intro _ _ hyes
      cases hyes

theorem emptied_close (w : Wire) (c : WsConnection) (resumption : Option Resumption) :
    Emptied w c.close.1 resumption := by
  intro hopen hwriting
  rcases close_eq c with ⟨heq, hnot⟩ | ⟨heq, -, hyes⟩ | ⟨heq, -, -⟩
  · rw [heq] at hopen
    exact (hnot ((finish_calm c).state hopen)).elim
  · rw [heq, hyes] at hwriting
    cases hwriting
  · rw [heq] at hopen
    cases hopen

theorem Wired.written (h : Wired w c begun resumption) (hwriting : c.writing = true) :
    let c' :=
      { c with writes := c.writes - 1, writing := false, writeQueue := c.writeQueue.tail }
    Wired w c' begun resumption ∧ ¬ w.Ahead c' := by
  obtain ⟨hahead, hopen⟩ := h.writing hwriting
  have hstarted : w.started.length ≤ w.sent.length := by
    have hlength := h.inOrder.length_le
    rwa [List.length_zipIdx] at hlength
  have hupper := h.upper
  unfold Wire.Ahead at hahead ⊢
  have htail : c.writeQueue.tail.length = c.writeQueue.length - 1 := List.length_tail
  have hnot : ¬ w.sent.length < w.started.length + c.writeQueue.tail.length := by omega
  refine ⟨⟨?_, h.closes, h.closedOnce, ?_, h.deferralsKept, h.inOrder, ?_, ?_, ?_, ?_, ?_,
    h.unbegun, ?_⟩, hnot⟩
  · have hwrites := h.writes
    rw [hwriting] at hwrites
    simp [hwrites]
  · exact fun hclosed => ⟨(h.closed hclosed).1, rfl⟩
  · exact (List.tail_suffix _).trans h.queued
  · simp only
    omega
  · simp only
    omega
  · intro hyes
    cases hyes
  · exact fun hyes => (hnot hyes).elim
  · intro hearly
    obtain ⟨hstarted, hclosed, -, hstate⟩ := h.early hearly
    exact ⟨hstarted, hclosed, rfl, hstate⟩

theorem Wired.failed (h : Wired w c begun resumption) (hwriting : c.writing = true)
    (hresumption : resumption ≠ some .afterOpen) :
    Wired w (WsConnection.finish { c with writes := c.writes - 1, writing := false }).1 begun
      resumption := by
  obtain ⟨hahead, hopen⟩ := h.writing hwriting
  have hwrites := h.writes
  rw [hwriting] at hwrites
  unfold WsConnection.finish
  split_ifs with hfinished
  · refine ⟨by simp [hwrites], h.closes, h.closedOnce, fun hclosed => ⟨(h.closed hclosed).1, rfl⟩,
      h.deferralsKept, h.inOrder, h.queued, h.lower, h.upper, ?_, ?_, h.unbegun, ?_⟩
    · intro hyes
      cases hyes
    · exact fun _ _ _ => ⟨hfinished, hresumption⟩
    · intro hearly
      obtain ⟨hstarted, hclosed, -, hstate⟩ := h.early hearly
      exact ⟨hstarted, hclosed, rfl, hstate⟩
  · refine ⟨by simp [hwrites], h.closes, h.closedOnce, fun _ => ⟨by simp, rfl⟩,
      h.deferralsKept, h.inOrder, h.queued, h.lower, h.upper, ?_, ?_, h.unbegun, ?_⟩
    · intro hyes
      cases hyes
    · intro _ _ hyes
      cases hyes
    · intro hearly
      obtain ⟨hstarted, hclosed, -, -⟩ := h.early hearly
      exact ⟨hstarted, hclosed, rfl, by simp⟩

theorem Wired.send (h : Wired w c begun resumption) (payload : String)
    (hfresh : c.state = .kOpen → c.writing = false → ¬ w.Ahead c) :
    Wired
        { w with
          sent := w.sent ++ [payload]
          started := w.started ++ startedBy (w.sent ++ [payload]) c.writes (c.send payload) }
        (c.send payload) begun resumption ∧
      ∀ wire, Emptied wire (c.send payload) resumption := by
  have hqueued := h.queue payload
  unfold WsConnection.send
  simp only
  split_ifs with hready
  · refine ⟨hqueued.doWrite hready.2 fun hopen => ?_, fun wire => emptied_doWrite _ _ _⟩
    rw [ahead_queue]
    exact hfresh hopen hready.2
  · rw [startedBy, if_neg (Nat.lt_irrefl _), List.append_nil]
    exact ⟨hqueued, fun wire hopen hwriting => (hready ⟨hopen, hwriting⟩).elim⟩

theorem Wired.not_inOrder (h : Wired w c begun resumption) (hahead : w.Ahead c)
    (hopen : c.state = .kOpen) (hwriting : c.writing = false) (payload : String) :
    ¬ w.started ++ startedBy (w.sent ++ [payload]) c.writes (c.send payload) <+:
      (w.sent ++ [payload]).zipIdx := by
  have hsent : c.send payload =
      { c with
        writeQueue := c.writeQueue ++ [payload]
        writing := true
        writes := c.writes + 1 } := by
    simp [WsConnection.send, WsConnection.doWrite, hopen, hwriting]
  obtain ⟨front, queue, hqueue⟩ : ∃ front queue, c.writeQueue ++ [payload] = front :: queue :=
    List.exists_cons_of_ne_nil (by simp)
  have hstarted : startedBy (w.sent ++ [payload]) c.writes (c.send payload) =
      [(front, (w.sent ++ [payload]).length - (c.writeQueue ++ [payload]).length)] := by
    rw [hsent, startedBy, if_pos (Nat.lt_succ_self _)]
    simp [hqueue]
  intro hinOrder
  rw [hstarted] at hinOrder
  have hnumber := number_of_inOrder hinOrder
  have hlength := h.queued.length_le
  unfold Wire.Ahead at hahead
  simp only [List.length_append, List.length_singleton] at hnumber
  omega

theorem close_writes (c : WsConnection) : c.close.1.writes = c.writes := by
  rcases close_eq c with ⟨heq, -⟩ | ⟨heq, -, -⟩ | ⟨heq, -, -⟩
  · rw [heq, (finish_calm c).writes]
  · rw [heq]
  · rw [heq]

theorem doWrite_closes (c : WsConnection) : c.doWrite.closes = c.closes := by
  rcases doWrite_eq c with ⟨heq, -⟩ | ⟨heq, -, -⟩ <;> rw [heq]

theorem Wired.onWrite (h : Wired w c begun resumption) (hwriting : c.writing = true) :
    let c' := (WsConnection.onWrite { c with writes := c.writes - 1 } true).1
    Wired
        { w with
          started := w.started ++ startedBy w.sent (c.writes - 1) c'
          closesStarted := w.closesStarted + (c'.closes - c.closes) }
        c' begun resumption ∧
      (∀ wire, Emptied wire c' resumption) ∧
      (c.closePending = true → c.closes < c'.closes ∨ c.finished = true) := by
  obtain ⟨hwritten, hnot⟩ := h.written hwriting
  obtain ⟨-, hopen⟩ := h.writing hwriting
  simp only [WsConnection.onWrite, Bool.true_eq_false, ↓reduceIte]
  split_ifs with hpending hsome
  · set sent : WsConnection :=
      { c with
        writes := c.writes - 1
        writing := false
        writeQueue := c.writeQueue.tail
        closePending := false } with hsent
    have hcalm : Wired w sent begun resumption :=
      hwritten.calm .aside id
    refine ⟨?_, fun wire => emptied_close _ _ _, fun _ => ?_⟩
    · rw [startedBy, close_writes, if_neg (Nat.lt_irrefl _), List.append_nil]
      exact hcalm.close
    · refine hopen.imp_left fun hopen => ?_
      rcases close_eq sent with ⟨-, hnot⟩ | ⟨-, -, hyes⟩ | ⟨heq, -, -⟩
      · exact (hnot hopen).elim
      · cases hyes
      · rw [heq]
        exact Nat.lt_succ_self _
  · refine ⟨?_, fun wire => emptied_doWrite _ _ _, fun hyes => (hpending hyes).elim⟩
    rw [doWrite_closes, Nat.sub_self]
    exact hwritten.doWrite rfl fun _ => hnot
  · refine ⟨?_, fun wire _ _ _ hyes => (hsome hyes).elim, fun hyes => (hpending hyes).elim⟩
    rw [startedBy, if_neg (Nat.lt_irrefl _), List.append_nil, Nat.sub_self]
    exact hwritten

theorem Wired.begin (h : Wired w c false resumption) : Wired w c true resumption :=
  { h with
    unbegun := fun hbegun => (Bool.false_ne_true hbegun.symm).elim
    early := fun _ => h.early (Or.inl rfl) }

theorem Wired.openUrl (h : Wired w c false resumption) (url : Bytes) :
    Wired w (c.openUrl url).1 true resumption := by
  unfold WsConnection.openUrl
  split
  · exact h.begin.calm (finish_calm c) id
  · obtain ⟨hstarted, hclosed, hwriting, -⟩ := h.early (Or.inl rfl)
    have hnot := h.not_ahead_of_started hstarted
    refine ⟨h.writes, h.closes, h.closedOnce, fun hsome => (hsome hclosed).elim, h.deferralsKept,
      h.inOrder, h.queued, h.lower, h.upper, ?_, fun hyes => (hnot hyes).elim, ?_, ?_⟩
    · intro hyes
      rw [hwriting] at hyes
      cases hyes
    · intro hbegun
      cases hbegun
    · exact fun _ => ⟨hstarted, hclosed, hwriting, by simp⟩

theorem Wired.opened (h : Wired w c begun resumption) (hopening : c.opening.isSome = true) :
    Wired w (WsConnection.opened { c with opening := none }) begun (some .afterOpen) := by
  obtain ⟨hstarted, hclosed, hwriting, -⟩ := h.early (Or.inr hopening)
  have hnot := h.not_ahead_of_started hstarted
  refine ⟨h.writes, h.closes, h.closedOnce, fun hsome => (hsome hclosed).elim, h.deferralsKept,
    h.inOrder, h.queued, h.lower, h.upper, ?_, fun hyes => (hnot hyes).elim, fun _ => rfl, ?_⟩
  · intro hyes
    rw [WsConnection.opened, hwriting] at hyes
    cases hyes
  · rintro (hbegun | hsome)
    · rw [h.unbegun hbegun] at hopening
      cases hopening
    · cases hsome

theorem Wired.afterOpen (h : Wired w c begun (some .afterOpen)) :
    Wired { w with started := w.started ++ startedBy w.sent c.writes c.afterOpen } c.afterOpen
        begun none ∧
      ∀ wire, Emptied wire c.afterOpen none := by
  have hread : Wired w c.doRead begun (some .afterOpen) := h.calm (doRead_calm c) id
  simp only [WsConnection.afterOpen]
  split_ifs with hready
  · rw [← (doRead_calm c).writes]
    refine ⟨hread.doWrite hready.1 fun hopen hahead => ?_, fun wire => emptied_doWrite _ _ _⟩
    exact (hread.ahead hahead hready.1 hopen).2 rfl
  · rw [startedBy, (doRead_calm c).writes, if_neg (Nat.lt_irrefl _), List.append_nil]
    refine ⟨hread.calm (.refl _) fun hnone => ?_, fun wire _ hwriting _ hsome => ?_⟩
    · cases hnone
    · exact (hready ⟨hwriting, hsome⟩).elim

end Wired

end CexAggregator
