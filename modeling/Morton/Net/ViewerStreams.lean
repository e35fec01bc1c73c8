import Mathlib.Data.List.Perm.Basic
import Mathlib.Data.List.Perm.Subperm
import Morton.Net.WebSocket

/-! What a viewer reads. Whatever is dropped on the way and wherever the sends stop, its bytes are
those of whole frames, cut off somewhere, of some of the published texts in their order. -/
namespace Morton.Net

/-! ### Frames, read by the length rules of RFC 6455 -/

def framePayload (size : Nat) (rest : FrameText) : Option (FrameText × FrameText) :=
  if size ≤ rest.length then some (rest.take size, rest.drop size) else none

/-- A length in `k` bytes. It has to be one that no shorter form can hold, and the first bit of
eight bytes is zero. -/
def extendedPayload (k least : Nat) (rest : FrameText) : Option (FrameText × FrameText) :=
  if k ≤ rest.length then
    let size := BigEndian.value (rest.take k)
    if least ≤ size ∧ size < 2 ^ 63 then framePayload size (rest.drop k) else none
  else none

/-- One unmasked text frame that is a whole message. -/
def decodeTextFrame : FrameText → Option (FrameText × FrameText)
  | first :: length :: rest =>
    if first ≠ 0x81 then none
    else if length < 126 then framePayload length.toNat rest
    else if length = 126 then extendedPayload 2 126 rest
    else if length = 127 then extendedPayload 8 65536 rest
    else none
  | _ => none

theorem framePayload_append {size : Nat} {xs rest text : FrameText} (ys : FrameText)
    (h : framePayload size xs = some (text, rest)) :
    framePayload size (xs ++ ys) = some (text, rest ++ ys) := by
  unfold framePayload at h ⊢
  split at h
  next hsize =>
    obtain ⟨rfl, rfl⟩ := Prod.mk.inj (Option.some.inj h)
    rw [if_pos (by rw [List.length_append]; omega), List.take_append_of_le_length hsize,
      List.drop_append_of_le_length hsize]
  next => cases h

theorem extendedPayload_append {k least : Nat} {xs rest text : FrameText} (ys : FrameText)
    (h : extendedPayload k least xs = some (text, rest)) :
    extendedPayload k least (xs ++ ys) = some (text, rest ++ ys) := by
  unfold extendedPayload at h ⊢
  dsimp only at h ⊢
  split at h
  next hk =>
    rw [if_pos (by rw [List.length_append]; omega), List.take_append_of_le_length hk,
      List.drop_append_of_le_length hk]
    split at h
    next hsize =>
      rw [if_pos hsize]
      exact framePayload_append ys h
    next => cases h
  next => cases h

theorem decodeTextFrame_append {xs rest text : FrameText} (ys : FrameText)
    (h : decodeTextFrame xs = some (text, rest)) :
    decodeTextFrame (xs ++ ys) = some (text, rest ++ ys) := by
  cases xs with
  | nil => cases h
  | cons first xs =>
    cases xs with
    | nil => cases h
    | cons length xs =>
      simp only [decodeTextFrame, List.cons_append] at h ⊢
      split_ifs at h ⊢
      · exact framePayload_append ys h
      · exact extendedPayload_append ys h
      · exact extendedPayload_append ys h

theorem framePayload_whole (text : FrameText) :
    framePayload text.length text = some (text, []) := by
  simp [framePayload]

/-- A length that `k` bytes can hold, and no shorter form. -/
theorem extendedPayload_whole {k least : Nat} {text : FrameText} (hleast : least ≤ text.length)
    (hk : text.length < 256 ^ k) (hsize : text.length < 2 ^ 63) :
    extendedPayload k least (BigEndian.bytes k text.length ++ text) = some (text, []) := by
  have hvalue := BigEndian.value_bytes k text.length
  rw [Nat.mod_eq_of_lt hk] at hvalue
  have hlength := BigEndian.bytes_length k text.length
  simp only [extendedPayload, List.length_append, hlength, Nat.le_add_right, if_true,
    List.take_left' hlength, List.drop_left' hlength, hvalue]
  rw [if_pos ⟨hleast, hsize⟩]
  exact framePayload_whole text

theorem decodeTextFrame_encode {text : FrameText} (h : text.length < 2 ^ 63) :
    decodeTextFrame (encodeTextFrame text) = some (text, []) := by
  unfold encodeTextFrame
  dsimp only
  split
  next hsmall =>
    have hvalue : (UInt8.ofNat text.length).toNat = text.length := by
      rw [UInt8.toNat_ofNat', Nat.mod_eq_of_lt (by omega)]
    have hlength : UInt8.ofNat text.length < 126 := by
      rw [UInt8.lt_iff_toNat_lt, hvalue]
      exact hsmall
    simp only [decodeTextFrame, ne_eq, not_true_eq_false, if_false, hlength, if_true, hvalue]
    exact framePayload_whole text
  next hsmall =>
    split
    next hmedium =>
      have hwhole : extendedPayload 2 126 (BigEndian.bytes 2 text.length ++ text) =
          some (text, []) := extendedPayload_whole (by omega) (by omega) h
      simpa [decodeTextFrame] using hwhole
    next hlarge =>
      have hwhole : extendedPayload 8 65536 (BigEndian.bytes 8 text.length ++ text) =
          some (text, []) := extendedPayload_whole (by omega) (by omega) h
      simpa [decodeTextFrame] using hwhole

example : (encodeTextFrame (List.replicate 125 0)).take 2 = [0x81, 125] ∧
    (encodeTextFrame (List.replicate 126 0)).take 4 = [0x81, 126, 0, 126] := by
  decide +kernel

def textFraming : Framing FrameText UInt8 where
  encode := encodeTextFrame
  decode := decodeTextFrame
  Fits text := text.length < 2 ^ 63
  decode_nil := rfl
  decode_encode := decodeTextFrame_encode
  decode_append := decodeTextFrame_append

/-- The texts of the whole frames, and what is left. -/
def decodeFrames (bytes : FrameText) : List FrameText × FrameText :=
  textFraming.decodeAll bytes.length bytes

/-! ### One round -/

/-- What the socket has taken and what waits for it. -/
def WebSocketPeer.stream (peer : WebSocketPeer) : FrameText := peer.sent ++ peer.outgoing

namespace WebSocketPeer

@[simp] theorem close_stream (peer : WebSocketPeer) : peer.close.stream = peer.stream := rfl

theorem drain_stream (peer : WebSocketPeer) (results : List RecvResult) :
    (peer.drain results).stream = peer.stream := by
  induction results generalizing peer with
  | nil => rfl
  | cons result results ih =>
    cases result with
    | chunk bytes =>
      simp only [drain]
      split_ifs
      · rfl
      · rfl
      · exact ih _
    | closed => rfl
    | again => rfl
    | failed => rfl

/-- However much a send takes, it moves the cut and leaves the stream. -/
theorem pump_stream (peer : WebSocketPeer) (results : List SendResult) :
    (peer.pump results).stream = peer.stream := by
  induction results generalizing peer with
  | nil => rfl
  | cons result results ih =>
    by_cases hempty : peer.outgoing = []
    · simp only [pump, if_pos hempty]
    · simp only [pump, if_neg hempty]
      cases result with
      | took n =>
        dsimp only
        split
        · rfl
        · rw [ih, stream, stream, List.append_assoc, List.take_append_drop]
      | again => rfl
      | failed => rfl

theorem encodeTextFrame_length (text : FrameText) :
    text.length ≤ (encodeTextFrame text).length := by
  unfold encodeTextFrame
  dsimp only
  split_ifs <;> simp <;> omega

/-- Each frame goes behind the stream whole, or not at all. -/
theorem enqueue_carries {peer : WebSocketPeer} {shown : List FrameText}
    (h : textFraming.Carries shown peer.stream) (counters : FrameCounters)
    (texts : List FrameText) :
    textFraming.Carries (shown ++ texts)
      (peer.enqueue counters (texts.map encodeTextFrame)).1.stream := by
  induction texts generalizing peer shown counters with
  | nil => rwa [List.append_nil]
  | cons text texts ih =>
    have hcons : shown ++ text :: texts = shown ++ [text] ++ texts := by simp
    rw [List.map_cons, enqueue, hcons]
    split
    · exact ih (h.mono (List.sublist_append_left shown [text])) _
    next hroom =>
      have hfits : textFraming.Fits text := by
        have := encodeTextFrame_length text
        show text.length < 2 ^ 63
        unfold kMaxOutgoingBytes at hroom
        omega
      have hnext := h.append hfits
      rw [stream, List.append_assoc] at hnext
      exact ih hnext _

end WebSocketPeer

theorem servePeer_carries {peer : WebSocketPeer} {shown : List FrameText}
    (h : textFraming.Carries shown peer.stream) (texts : List FrameText) (polled : Bool)
    (events : PeerEvents) (counters : FrameCounters) :
    textFraming.Carries (shown ++ texts)
      (servePeer (texts.map encodeTextFrame) polled events peer counters).1.stream := by
  unfold servePeer
  dsimp only
  have hdrained : textFraming.Carries shown
      (if polled && events.readable then peer.drain events.received else peer).stream := by
    split
    · rwa [WebSocketPeer.drain_stream]
    · exact h
  generalize (if polled && events.readable then peer.drain events.received else peer) = drained
    at hdrained ⊢
  split
  · exact hdrained.mono (List.sublist_append_left shown texts)
  · rw [WebSocketPeer.pump_stream]
    exact WebSocketPeer.enqueue_carries hdrained counters texts

theorem servePeers_carries {peers : List WebSocketPeer} {shown : List FrameText}
    (h : ∀ peer ∈ peers, textFraming.Carries shown peer.stream) (texts : List FrameText)
    (waiters : Nat) (events : Nat → PeerEvents) (i : Nat) (counters : FrameCounters) :
    ∀ peer ∈ (servePeers (texts.map encodeTextFrame) waiters events i peers counters).1,
      textFraming.Carries (shown ++ texts) peer.stream := by
  induction peers generalizing i counters with
  | nil => exact fun peer hpeer => absurd hpeer List.not_mem_nil
  | cons first peers ih =>
    intro peer hpeer
    cases List.mem_cons.mp hpeer with
    | inl here =>
      rw [here]
      exact servePeer_carries (h first List.mem_cons_self) texts _ _ counters
    | inr later =>
      exact ih (fun p hp => h p (List.mem_cons_of_mem first hp)) _ _ peer later

theorem popOldest_suffix (maxQueuedFrames : Nat) (queue : List FrameText)
    (counters : FrameCounters) : (popOldest maxQueuedFrames queue counters).1.IsSuffix queue := by
  induction queue generalizing counters with
  | nil => exact List.suffix_refl []
  | cons text queue ih =>
    rw [popOldest]
    split
    · exact (ih _).trans (List.suffix_cons text queue)
    · exact List.suffix_refl _

/-! ### Runs -/

namespace WebSocketServer

/-- `shown` is what every viewer has been served, and `held` what the thread has taken since. -/
structure InOrder (s : WebSocketServer) (shown held : List FrameText) : Prop where
  frames : s.phase.frames = held.map encodeTextFrame
  order : (shown ++ held ++ s.queue).Sublist s.published
  carries : ∀ peer ∈ s.peers ++ s.departed, textFraming.Carries shown peer.stream

variable {s : WebSocketServer} {shown held : List FrameText}

theorem InOrder.enqueueText (h : s.InOrder shown held) (text : FrameText) :
    (s.enqueueText text).InOrder shown held where
  frames := h.frames
  order := by
    have hqueue :=
      (popOldest_suffix s.config.maxQueuedFrames (s.queue ++ [text]) s.counters).sublist
    have hpublished := h.order.append_right [text]
    rw [List.append_assoc] at hpublished
    exact (hqueue.append_left (shown ++ held)).trans hpublished
  carries := h.carries

theorem InOrder.acceptPeer (h : s.InOrder shown held) (handshake : Bool) :
    (s.acceptPeer handshake).InOrder shown held := by
  unfold WebSocketServer.acceptPeer
  split
  · exact h
  · refine ⟨h.frames, h.order, ?_⟩
    intro peer hpeer
    simp only [storeClients, List.mem_append, List.mem_singleton] at hpeer
    cases hpeer with
    | inl hpresent =>
      cases hpresent with
      | inl hold => exact h.carries peer (List.mem_append_left _ hold)
      | inr hnew =>
        rw [hnew]
        exact Framing.carries_nil shown
    | inr hgone => exact h.carries peer (List.mem_append_right _ hgone)

theorem InOrder.reap (h : s.InOrder shown held) : s.reap.InOrder shown held := by
  refine ⟨h.frames, h.order, ?_⟩
  intro peer hpeer
  apply h.carries peer
  simp only [WebSocketServer.reap, storeClients, List.mem_append, List.mem_filter] at hpeer ⊢
  tauto

/-- The thread takes the queue: what was queued is now held. -/
theorem InOrder.take (h : s.InOrder shown []) (waiters : Nat) :
    InOrder { s with phase := .taken waiters (s.queue.map encodeTextFrame), queue := [] } shown
      s.queue where
  frames := rfl
  order := by
    have horder := h.order
    rwa [List.append_nil] at horder ⊢
  carries := h.carries

/-- What was held is now shown, to those that were there. -/
theorem InOrder.serve (h : s.InOrder shown held) {waiters : Nat}
    (hphase : s.phase = .taken waiters (held.map encodeTextFrame)) (events : Nat → PeerEvents) :
    InOrder (s.step (.serve events)) (shown ++ held) [] := by
  rw [step, hphase]
  apply InOrder.reap
  refine ⟨rfl, by simpa using h.order, ?_⟩
  intro peer hpeer
  cases List.mem_append.mp hpeer with
  | inl hpresent =>
    exact servePeers_carries (fun p hp => h.carries p (List.mem_append_left _ hp)) held waiters
      events 0 s.counters peer hpresent
  | inr hgone =>
    exact (h.carries peer (List.mem_append_right _ hgone)).mono
      (List.sublist_append_left shown held)

theorem InOrder.held_eq_nil (h : s.InOrder shown held) (hframes : s.phase.frames = []) :
    held = [] := by
  have hmap := h.frames
  rw [hframes] at hmap
  exact List.map_eq_nil_iff.mp hmap.symm

/-- The thread moves texts from queued to held to shown; every other action leaves them. -/
theorem InOrder.step (h : s.InOrder shown held) (a : WebSocketAction) :
    ∃ shown' held', (s.step a).InOrder shown' held' := by
  cases a with
  | start config =>
    cases hphase : s.phase with
    | exited =>
      obtain rfl := h.held_eq_nil (by rw [hphase]; rfl)
      rw [WebSocketServer.step, hphase]
      exact ⟨shown, [], rfl, h.order, h.carries⟩
    | top | polled | taken =>
      rw [WebSocketServer.step, hphase]
      exact ⟨shown, held, h⟩
  | stop => exact ⟨shown, held, h.frames, h.order, h.carries⟩
  | clear =>
    cases hphase : s.phase with
    | exited =>
      obtain rfl := h.held_eq_nil (by rw [hphase]; rfl)
      rw [WebSocketServer.step, hphase]
      refine ⟨shown, [], rfl, ?_, ?_⟩
      · exact ((List.nil_sublist s.queue).append_left (shown ++ [])).trans h.order
      · intro peer hpeer
        apply h.carries peer
        simp only [List.mem_append, List.not_mem_nil, false_or] at hpeer ⊢
        exact hpeer.symm
    | top | polled | taken =>
      rw [WebSocketServer.step, hphase]
      exact ⟨shown, held, h⟩
  | enter text =>
    refine ⟨shown, held, ?_⟩
    unfold WebSocketServer.step
    dsimp only
    split
    · exact ⟨h.frames, h.order, h.carries⟩
    · exact h
  | check call =>
    refine ⟨shown, held, ?_⟩
    unfold WebSocketServer.step
    dsimp only
    split
    · split
      · exact ⟨h.frames, h.order, h.carries⟩
      · exact ⟨h.frames, h.order, h.carries⟩
    · exact h
  | publish call =>
    refine ⟨shown, held, ?_⟩
    unfold WebSocketServer.step
    dsimp only
    split
    · apply InOrder.enqueueText
      exact ⟨h.frames, h.order, h.carries⟩
    · exact h
  | poll connection =>
    cases hphase : s.phase with
    | top =>
      obtain rfl := h.held_eq_nil (by rw [hphase]; rfl)
      rw [WebSocketServer.step, hphase]
      dsimp only
      split
      · have haccepted : (connection.elim s s.acceptPeer).InOrder shown [] := by
          cases connection with
          | none => exact h
          | some handshake => exact h.acceptPeer handshake
        exact ⟨shown, [], rfl, haccepted.order, haccepted.carries⟩
      · exact ⟨shown, [], rfl, h.order, h.carries⟩
    | exited | polled | taken =>
      rw [WebSocketServer.step, hphase]
      exact ⟨shown, held, h⟩
  | take =>
    cases hphase : s.phase with
    | polled waiters =>
      obtain rfl := h.held_eq_nil (by rw [hphase]; rfl)
      rw [WebSocketServer.step, hphase]
      exact ⟨shown, s.queue, h.take waiters⟩
    | exited | top | taken =>
      rw [WebSocketServer.step, hphase]
      exact ⟨shown, held, h⟩
  | serve events =>
    cases hphase : s.phase with
    | taken waiters frames =>
      have hframes := h.frames
      rw [hphase] at hframes
      obtain rfl : frames = held.map encodeTextFrame := hframes
      exact ⟨shown ++ held, [], h.serve hphase events⟩
    | exited | top | polled =>
      rw [WebSocketServer.step, hphase]
      exact ⟨shown, held, h⟩

theorem inOrder_run (actions : List WebSocketAction) :
    ∃ shown held, (Run.run WebSocketServer.step {} actions).InOrder shown held := by
  apply Run.invariant_always (fun s : WebSocketServer => ∃ shown held, s.InOrder shown held)
  · intro s a h
    obtain ⟨shown, held, h⟩ := h
    exact h.step a
  · exact ⟨[], [], rfl, List.Sublist.refl [], fun peer hpeer => absurd hpeer List.not_mem_nil⟩

/-- The texts `publish` was called with. -/
def calledWith : List WebSocketAction → List FrameText :=
  List.filterMap fun a => match a with | .enter text => some text | _ => none

/-- How often a text is published or on its way through `publish`. -/
def copies (s : WebSocketServer) (text : FrameText) : Nat :=
  s.published.count text + s.waiting.count text + s.entered.count text

theorem count_eraseIdx {l : List FrameText} {i : Nat} {text : FrameText} (h : l[i]? = some text)
    (t : FrameText) : (l.eraseIdx i).count t + [text].count t = l.count t := by
  obtain ⟨hi, rfl⟩ := List.getElem?_eq_some_iff.mp h
  have hperm := (List.getElem_cons_eraseIdx_perm hi).count_eq t
  rw [List.count_cons] at hperm
  rw [List.count_singleton]
  exact hperm

theorem enqueueText_copies (s : WebSocketServer) (text t : FrameText) :
    (s.enqueueText text).copies t = s.copies t + [text].count t := by
  unfold WebSocketServer.enqueueText copies
  dsimp only
  rw [List.count_append]
  omega

theorem acceptPeer_copies (s : WebSocketServer) (handshake : Bool) (t : FrameText) :
    (s.acceptPeer handshake).copies t = s.copies t := by
  unfold WebSocketServer.acceptPeer
  split
  · rfl
  · rfl

/-- A text moves on through a call; nothing but a call makes a new one. -/
theorem step_copies (s : WebSocketServer) (a : WebSocketAction) (t : FrameText) :
    (s.step a).copies t ≤ s.copies t + (calledWith [a]).count t := by
  cases a with
  | enter text =>
    unfold WebSocketServer.step
    dsimp only
    split
    · simp only [copies, calledWith, List.count_append, List.filterMap_cons, List.filterMap_nil]
      omega
    · exact Nat.le_add_right _ _
  | check call =>
    unfold WebSocketServer.step
    dsimp only
    split
    next text htext =>
      have hcount := count_eraseIdx htext t
      split
      · simp only [copies]
        omega
      · simp only [copies, List.count_append]
        omega
    next => exact Nat.le_add_right _ _
  | publish call =>
    unfold WebSocketServer.step
    dsimp only
    split
    next text htext =>
      have hcount := count_eraseIdx htext t
      rw [enqueueText_copies]
      simp only [copies]
      omega
    next => exact Nat.le_add_right _ _
  | start config | stop | clear | take | serve events =>
    unfold WebSocketServer.step
    first | exact Nat.le_add_right _ _ | (dsimp only; split <;> exact Nat.le_add_right _ _)
  | poll connection =>
    have haccepted : (connection.elim s s.acceptPeer).copies t = s.copies t := by
      cases connection with
      | none => rfl
      | some handshake => exact s.acceptPeer_copies handshake t
    unfold WebSocketServer.step
    dsimp only
    split
    · split
      · exact haccepted ▸ Nat.le_add_right _ _
      · exact Nat.le_add_right _ _
    · exact Nat.le_add_right _ _

theorem run_copies (s : WebSocketServer) (actions : List WebSocketAction) (t : FrameText) :
    (Run.run WebSocketServer.step s actions).copies t ≤
      s.copies t + (calledWith actions).count t := by
  induction actions generalizing s with
  | nil => exact Nat.le_add_right _ _
  | cons a actions ih =>
    have hcalls : calledWith (a :: actions) = calledWith [a] ++ calledWith actions :=
      List.filterMap_append (l := [a])
    have hstep := s.step_copies a t
    have hrest := ih (s.step a)
    rw [Run.run_cons, hcalls, List.count_append]
    omega

/-- Each call publishes its text at most once, and nothing else is published. -/
theorem published_subperm (actions : List WebSocketAction) :
    (Run.run WebSocketServer.step {} actions).published.Subperm (calledWith actions) := by
  rw [List.subperm_ext_iff]
  intro t _
  have hrun := run_copies {} actions t
  have hnone : copies {} t = 0 := rfl
  rw [hnone, copies] at hrun
  omega

/-- For every run of the server, every viewer that is there or has left has been sent a leading
part of whole text frames, which are some of the published texts in the order of publication; from
what it has it reads the first of them. What is published comes from calls of `publish`, once
each. -/
theorem viewers_read_whole_frames (actions : List WebSocketAction) :
    let s := Run.run WebSocketServer.step {} actions
    s.published.Subperm (calledWith actions) ∧
    ∀ viewer ∈ s.peers ++ s.departed, ∃ texts : List FrameText, texts.Sublist s.published ∧
      viewer.sent.IsPrefix (texts.flatMap encodeTextFrame) ∧
      decodeFrames (texts.flatMap encodeTextFrame) = (texts, []) ∧
      ∃ n, (decodeFrames viewer.sent).1 = texts.take n := by
  intro s
  refine ⟨published_subperm actions, ?_⟩
  intro viewer hviewer
  obtain ⟨shown, held, h⟩ := inOrder_run actions
  obtain ⟨texts, hchosen, hfits, hstream⟩ := h.carries viewer hviewer
  have hsent : viewer.sent.IsPrefix (texts.flatMap encodeTextFrame) :=
    ⟨viewer.outgoing, hstream⟩
  have hshown : shown.Sublist s.published := by
    have := h.order
    rw [List.append_assoc] at this
    exact (List.sublist_append_left _ _).trans this
  obtain ⟨n, hread, -⟩ := Framing.decodeAll_cut hfits hsent le_rfl
  exact ⟨texts, hchosen.trans hshown, hsent, Framing.decodeAll_stream hfits le_rfl, n, hread⟩

end WebSocketServer
end Morton.Net
