import Rosette.Proto.Framing
import Rosette.Relay.Connection
import Rosette.Relay.Modes

/-! # What the relay writes can be read

The relay checks the size of an envelope when it takes it and never again. What it
writes for it later, to whichever connection and after whichever restart, is the
envelope and a few bytes around it, and the reader's ceiling leaves room for both.
-/
namespace Rosette.Relay
open Foundation Proto List Option

def Small (e : Envelope) : Prop := e.paddedCiphertext.length ≤ maxMessageSize

section Lengths

theorem length_encode_envelope (e : Envelope) :
    (Envelope.codec.encode e).length = 28 + e.paddedCiphertext.length := by
  change ((Bytes.codec 16).encode _ ++ (Codec.leBytes 4 _ ++
    (Codec.leBytes 8 _ ++ Codec.byte.encodeAll e.paddedCiphertext))).length = _
  simp only [length_append, length_encode_bytes, Codec.leBytes_length,
    Codec.length_encodeAll Codec.byte (fun _ => rfl)]
  omega

theorem length_encode_push (q : QueueId) (e : Envelope) :
    (ServerFrame.codec.encode (.push q e)).length = 64 + e.paddedCiphertext.length := by
  change (Codec.leBytes 4 _ ++ ((Bytes.codec 32).encode _ ++ Envelope.codec.encode e)).length = _
  simp only [length_append, length_encode_bytes, Codec.leBytes_length, length_encode_envelope]
  omega

theorem length_encode_reply (id : UInt64) (m : ServerMessage) :
    (ServerFrame.codec.encode (.reply id m)).length ≤ 80 := by
  have hm : (ServerMessage.codec.encode m).length ≤ 68 := by
    cases m with
    | ok =>
      change (Codec.leBytes 4 _ ++ []).length ≤ _
      simp
    | error =>
      change (Codec.leBytes 4 _ ++ Codec.leBytes 4 _).length ≤ _
      simp
    | powChallenge =>
      change (Codec.leBytes 4 _ ++ ((Bytes.codec 32).encode _ ++ Codec.leBytes 1 _)).length ≤ _
      simp
    | queueCreated =>
      change (Codec.leBytes 4 _ ++ ((Bytes.codec 32).encode _ ++ (Bytes.codec 32).encode _)).length
        ≤ _
      simp
  change (Codec.leBytes 4 _ ++ (Codec.leBytes 8 _ ++ ServerMessage.codec.encode m)).length ≤ _
  simp only [length_append, Codec.leBytes_length]
  omega

end Lengths

section Run
variable {c : Crypto} {persistent : Bool} {es : List RelayEvent} {s t : Server} {ev : ServerEvent}
  {k : ChannelId}

theorem everywhere_small {s : Service}
    (h : run (Service.step c) (Service.boot persistent) es = some s) :
    Everywhere Small s.relay := by
  induction es using reverseRecOn generalizing s with
  | nil =>
    cases h
    exact .boot Small persistent
  | append_singleton es ev ih =>
    rw [run_snoc] at h
    obtain ⟨u, hu, hstep⟩ := bind_eq_some_iff.mp h
    refine (ih hu).step (run_explains hu).2 (fun amb msg m _ hm e he => ?_) hstep
    exact ((RelayState.planned_plan c amb u.relay msg none).admits m hm).size he

/-- The connections do to the relay only what a run of the service does. -/
theorem transition_serves (h : Transition c s ev t) (log : List Exchange) :
    ∃ es log', run (Service.step c) ⟨s.relay, log⟩ es = some ⟨t.relay, log'⟩ := by
  have answered : ∀ {k : ChannelId} {amb : Ambient} {msg : ClientMessage} {relay : RelayState}
      {reply : ServerMessage}, s.relay.handle c amb msg (some k) = (relay, .answered reply) →
      ∃ es log', run (Service.step c) ⟨s.relay, log⟩ es = some ⟨relay, log'⟩ := by
    intro k amb msg relay reply handled
    refine ⟨[.request amb msg (some k)], log ++ [(msg, reply)], ?_⟩
    simp only [run, Service.step, handled, bind_some]
  cases h with
  | answered known main handled | unanswered known main handled => exact answered handled
  | @panicked k h amb frame relay known main handled =>
    refine ⟨[.request amb frame.message (some k)], log, ?_⟩
    simp only [run, Service.step, handled]
    rfl
  | @forwarded k => exact ⟨[.receivePush k], log, rfl⟩
  | @forwardFailed k => exact ⟨[.receivePush k, .hangUp k], log, rfl⟩
  | @forwarderDrained k | @joined k => exact ⟨[.hangUp k], log, rfl⟩
  | _ => exact ⟨[], log, rfl⟩

def Fits (f : ServerFrame) : Prop := (ServerFrame.codec.encode f).length ≤ 2 * maxMessageSize

theorem fits_reply (id : UInt64) (m : ServerMessage) : Fits (.reply id m) :=
  (length_encode_reply id m).trans (by decide)

theorem fits_push {e : Envelope} (h : Small e) (q : QueueId) : Fits (.push q e) := by
  unfold Fits Small maxMessageSize at *
  rw [length_encode_push]
  omega

def Server.Emits (s : Server) : Prop := ∀ k h, s.handlers k = some h → ∀ f ∈ h.out, Fits f

theorem Server.Emits.setHandler (h : s.Emits) {hd : Handler} (hout : ∀ f ∈ hd.out, Fits f)
    (relay : RelayState) : (Server.setHandler ⟨relay, s.handlers⟩ k hd).Emits := by
  intro j hj hhandler
  by_cases hjk : j = k
  · subst hjk
    simp only [Server.setHandler, Function.update_self, some.injEq] at hhandler
    exact hhandler ▸ hout
  · simp only [Server.setHandler, Function.update_of_ne hjk] at hhandler
    exact h j hj hhandler

theorem Server.Emits.keeps (h : s.Emits) {before after : Handler}
    (known : s.handlers k = some before) (hout : after.out = before.out) (relay : RelayState) :
    (Server.setHandler ⟨relay, s.handlers⟩ k after).Emits :=
  h.setHandler (fun f hf => h k before known f (hout ▸ hf)) relay

theorem Server.Emits.transition (h : s.Emits) (hsmall : Everywhere Small s.relay)
    (htr : Transition c s ev t) : t.Emits := by
  cases htr with
  | accepted | writeFailed => exact h.setHandler (fun f hf => by cases hf) _
  | answered known =>
    refine h.setHandler (fun f hf => ?_) _
    rcases mem_append.mp hf with hold | hnew
    · exact h _ _ known f hold
    · rw [mem_singleton.mp hnew]
      exact fits_reply _ _
  | @forwarded k hd p rest known forwarder queued =>
    refine h.setHandler (fun f hf => ?_) _
    rcases mem_append.mp hf with hold | hnew
    · exact h _ _ known f hold
    · rw [mem_singleton.mp hnew]
      exact fits_push (hsmall.pushed k p (by simp [queued])) _
  | wrote known writer queued =>
    exact h.setHandler (fun f hf => h _ _ known f (by simp [queued, hf])) _
  | closed known | readFailed known | unanswered known | panicked known | writerDrained known
  | forwardFailed known | forwarderDrained known | joined known => exact h.keeps known (by rfl) _

theorem emits_run {s : Service} (hs : run (Service.step c) (Service.boot persistent) es = some s)
    {evs : List ServerEvent} (ht : run (Server.step c) ⟨s.relay, fun _ => none⟩ evs = some t) :
    t.Emits := by
  have hinv : (∃ es log, run (Service.step c) (Service.boot persistent) es = some ⟨t.relay, log⟩) ∧
      t.Emits := by
    refine run_invariant ?_ ?_ ht
    · exact ⟨⟨es, s.log, hs⟩, fun k h hh => by cases hh⟩
    · rintro u ev v ⟨⟨es', log, hrun⟩, hemits⟩ hstep
      have htr := transition_of_step hstep
      obtain ⟨es'', log', hmore⟩ := transition_serves htr log
      refine ⟨⟨es' ++ es'', log', ?_⟩, hemits.transition (everywhere_small hrun) htr⟩
      rw [run_append, hrun, bind_some, hmore]
  exact hinv.2

end Run

/-- Frames up to the ceiling are read back as they were written, whatever they are frames of, and
then the stream is closed; cut anywhere, the stream yields the frames complete before the cut and
an error; a length over the ceiling is refused before any byte behind it is taken or buffered;
and every frame the relay has to write, from any state it can be in, is within the ceiling. -/
theorem framing_recovers_messages :
    (∀ {α : Type} (c : Codec α) (frames : List α), (∀ a ∈ frames, c.valid a ∧
        (c.encode a).length ≤ 2 * maxMessageSize) → ∀ fuel, frames.length < fuel →
      readFrames c fuel (frames.flatMap (writeFrame c)) = (frames, some .closed) ∧
      ∀ n, ∃ k e,
        readFrames c fuel ((frames.flatMap (writeFrame c)).take n) = (frames.take k, some e) ∧
        ((frames.take k).flatMap (writeFrame c)).length ≤ n ∧
        (k < frames.length → n < ((frames.take (k + 1)).flatMap (writeFrame c)).length)) ∧
    (∀ {α : Type} (c : Codec α) (r : Reader),
      (r.readFrame c).1 = (readFrame c r.unread).map Prod.fst ∧
      ∀ len body, len < 2 ^ 32 → 2 * maxMessageSize < len →
        r.unread = (Codec.le 4).encode len ++ body →
        r.readFrame c = (.error (.tooLarge len), ⟨body, r.taken + 4, r.buffered⟩)) ∧
    ∀ (c : Crypto) (persistent : Bool) (es : List RelayEvent) (s : Service)
      (evs : List ServerEvent) (t : Server),
      run (Service.step c) (Service.boot persistent) es = some s →
      run (Server.step c) ⟨s.relay, fun _ => none⟩ evs = some t →
      ∀ k h, t.handlers k = some h → ∀ f ∈ h.out,
        (ServerFrame.codec.encode f).length ≤ 2 * maxMessageSize := by
  refine ⟨fun c frames hframes fuel hfuel => ?_, fun c r => ?_, ?_⟩
  · have hsend : ∀ a ∈ frames, Sendable c a := fun a ha => ⟨(hframes a ha).1, (hframes a ha).2⟩
    exact ⟨readFrames_writeFrames hsend hfuel, readFrames_cut hsend hfuel⟩
  · exact ⟨(r.readFrame_eq c).1, fun len body hlen hbig h => r.readFrame_tooLarge c hlen hbig h⟩
  · intro c persistent es s evs t hs ht
    exact emits_run hs ht

end Rosette.Relay
