import Seedstone.Library.Contract
import Seedstone.Resp.Chunking
import Seedstone.Service.Connection

/-!
# Before a password

Until a look at its node has admitted the peer, a connection asks nothing but the
node's cells and its transport.  What surrounds a connection here records the looks:
the first is made on accepting it, and while nobody is admitted the next ones are made
for the requests, one each and in their order.
-/

namespace Seedstone.Service

/-- What a connection may ask for any peer. -/
def Ask.Open : Ask → Prop
  | .look | .write _ => True
  | _ => False

/-- What surrounds a connection answers in any way; the looks so far are kept. -/
def surroundings : Environment Ask Ask.Answer (List NodeInfo) where
  drifts looks found := found = looks
  answers _ _ _ := True
  after
    | looks, .look, node => looks ++ [node]
    | looks, _, _ => looks

/-- The first look found that no password is asked for, or the look made for one of the
requests found it to be an accepted authentication. -/
def Admitted (requests : List Frame) (looks : List NodeInfo) : Prop :=
  (∃ node, looks[0]? = some node ∧ node.requiresAuth = false) ∨
    ∃ (index : Nat) (request : Frame) (node : NodeInfo) (frame : Frame),
      requests[index]? = some request ∧ looks[index + 1]? = some node ∧
        frameToAction request node = .authenticate (.ok frame)

/-- Each call of the task is open to any peer, or made when the peer is admitted. -/
def Guarded {α : Type} (requests : List Frame) (post : α → List NodeInfo → Prop)
    (task : Edge α) (looks : List NodeInfo) : Prop :=
  surroundings.Ensures (fun looks question _ => question.Open ∨ Admitted requests looks) post
    task looks

variable {requests : List Frame} {looks : List NodeInfo}

theorem Admitted.append (admitted : Admitted requests looks) (more : List NodeInfo) :
    Admitted requests (looks ++ more) := by
  have kept {index : Nat} {node : NodeInfo} (found : looks[index]? = some node) :
      (looks ++ more)[index]? = some node := by
    rw [List.getElem?_append_left (List.getElem?_eq_some_iff.mp found).1, found]
  rcases admitted with ⟨node, first, free⟩ | ⟨index, request, node, frame, sent, look, accepted⟩
  · exact .inl ⟨node, kept first, free⟩
  · exact .inr ⟨index, request, node, frame, sent, kept look, accepted⟩

/-- Whoever is admitted stays so. -/
theorem Admitted.guarded {α : Type} (admitted : Admitted requests looks) (task : Edge α) :
    Guarded requests (fun _ => Admitted requests) task looks := by
  refine Environment.Ensures.of_kept task ?_ admitted
  rintro looks _ question answer admitted rfl _
  refine ⟨.inr admitted, ?_⟩
  cases question with
  | look => exact admitted.append _
  | _ => exact admitted

/-- The frames a decoder still gives, with `reads` to come. -/
def framesIn (reads : List Bytes) (fuel : Nat) (decoder : Decoder) : List Frame :=
  match decoder.drainLoop fuel with
  | (frames, .ok last) => frames ++ (last.decode reads).1
  | (frames, .error _) => frames

/-- The looks are those made for `done`, and `coming` are the other requests. -/
def Paired (requests : List Frame) (looks : List NodeInfo) (coming : List Frame) : Prop :=
  ∃ done : List Frame, looks.length = done.length + 1 ∧ done ++ coming = requests

namespace Connection

structure Locked (conn : Connection) : Prop where
  stranger : conn.authenticated = false
  idle : conn.chunk.batch = []

variable {conn : Connection} (locked : conn.Locked)

include locked

theorem Locked.flushReplies :
    Guarded requests (fun told last => told.2.Locked ∧ last = looks) conn.flushReplies looks := by
  unfold Connection.flushReplies
  split
  · exact ⟨locked, rfl⟩
  · exact fun _ same _ _ => ⟨.inl trivial, ⟨locked.stranger, locked.idle⟩, same⟩

theorem Locked.emitSlots (replies : List Reply) (slots : List Slot) :
    Guarded requests (fun told last => told.2.Locked ∧ last = looks)
      (emitSlots replies slots conn) looks := by
  induction slots generalizing conn with
  | nil => exact ⟨locked, rfl⟩
  | cons slot slots induction =>
    have appended : (conn.append (slot.frame replies)).Locked := ⟨locked.stranger, locked.idle⟩
    rw [Connection.emitSlots]
    split
    · apply Environment.Ensures.bind appended.flushReplies
      rintro ⟨delivered, after⟩ _ ⟨still, rfl⟩
      cases delivered with
      | true => exact induction still
      | false => exact ⟨still, rfl⟩
    · exact induction appended

theorem Locked.emitChunk :
    Guarded requests (fun told last => told.2.Locked ∧ last = looks) conn.emitChunk looks := by
  unfold Connection.emitChunk
  split
  · exact ⟨locked, rfl⟩
  · have bare : Locked { conn with chunk := ⟨[], []⟩ } := ⟨locked.stranger, rfl⟩
    rw [locked.idle]
    exact bare.emitSlots [] _

theorem Locked.settle :
    Guarded requests (fun told last => told.2.Locked ∧ last = looks) conn.settle looks := by
  apply Environment.Ensures.bind locked.emitChunk
  rintro ⟨delivered, after⟩ _ ⟨still, rfl⟩
  cases delivered with
  | true => exact still.flushReplies
  | false => exact ⟨still, rfl⟩

/-- A request that authenticates nobody only takes a slot. -/
theorem Locked.obey {action : Action} (shut : ∀ frame, action ≠ .authenticate (.ok frame)) :
    Guarded requests (fun told last => told.2.Locked ∧ last = looks)
      (conn.obey (gated action conn.authenticated)) looks := by
  rw [locked.stranger]
  have slot (frame : Frame) : (conn.push (.ready frame) []).Locked :=
    ⟨locked.stranger, by rw [push, locked.idle]; rfl⟩
  cases action with
  | authenticate outcome =>
    cases outcome with
    | ok frame => exact absurd rfl (shut frame)
    | error frame => exact ⟨⟨locked.stranger, (slot frame).idle⟩, rfl⟩
  | _ => exact ⟨slot _, rfl⟩

variable [DebugText]

theorem Locked.refuse (error : ParseError) :
    Guarded requests (fun conn last => conn.Locked ∧ last = looks) (conn.refuse error) looks := by
  apply Environment.Ensures.bind locked.emitChunk
  rintro ⟨delivered, after⟩ _ ⟨still, rfl⟩
  cases delivered with
  | false => exact ⟨still, rfl⟩
  | true =>
    have appended : (after.append (safeError (protocolError error))).Locked :=
      ⟨still.stranger, still.idle⟩
    exact Environment.Ensures.bind appended.flushReplies fun _ _ flushed => flushed

variable {reads : List Bytes} {decoder : Decoder}

theorem Locked.drainLoop (fuel : Nat)
    (paired : Paired requests looks (framesIn reads fuel decoder)) :
    Guarded requests (fun drained last => Admitted requests last ∨ drained.2.Locked ∧
      ∀ decoder, drained.1 = .dry decoder → Paired requests last (decoder.decode reads).1)
      (drainLoop fuel decoder conn) looks := by
  induction fuel generalizing decoder conn looks with
  | zero => exact .inr ⟨locked, fun _ dry => Drained.dry.inj dry ▸ paired⟩
  | succ fuel induction =>
    rw [framesIn, Decoder.drainLoop] at paired
    rw [Connection.drainLoop]
    split
    · next frame after next =>
      rintro looks rfl node _
      refine ⟨.inl trivial, ?_⟩
      have coming : Paired requests looks (frame :: framesIn reads fuel after) := by
        rw [next] at paired
        unfold framesIn
        rcases found : after.drainLoop fuel with ⟨frames, error | last⟩ <;>
          simpa only [found, List.cons_append] using paired
      obtain ⟨done, count, whole⟩ := coming
      by_cases shut : ∀ reply, frameToAction frame node ≠ .authenticate (.ok reply)
      · apply Environment.Ensures.bind (locked.obey shut)
        rintro ⟨stop, later⟩ _ ⟨still, rfl⟩
        cases stop with
        | some stop => exact .inr ⟨still, nofun⟩
        | none =>
          apply induction still
          exact ⟨done ++ [frame], by simp [surroundings, count], by simpa using whole⟩
      · obtain ⟨reply, accepted⟩ := not_forall_not.mp shut
        have admitted : Admitted requests (looks ++ [node]) :=
          .inr ⟨done.length, frame, node, reply, by simp [← whole], by simp [← count], accepted⟩
        exact (admitted.guarded _).weaken fun _ _ => Or.inl
    · next after next =>
      rw [next] at paired
      exact .inr ⟨locked, fun _ dry => Drained.dry.inj dry ▸ paired⟩
    · next error _ =>
      exact Environment.Ensures.bind (locked.refuse error) fun _ _ refused =>
        .inr ⟨refused.1, nofun⟩

theorem Locked.exchange
    (paired : Paired requests looks (framesIn reads (decoder.buffered + 1) decoder)) :
    Guarded requests (fun told last => Admitted requests last ∨ told.2.Locked ∧
      ∀ decoder, told.1 = some decoder → Paired requests last (decoder.decode reads).1)
      (conn.exchange decoder) looks := by
  apply Environment.Ensures.bind (locked.drainLoop _ paired)
  rintro ⟨drained, after⟩ _ (admitted | ⟨still, rest⟩)
  · exact (admitted.guarded _).weaken fun _ _ => Or.inl
  cases drained with
  | dry decoder =>
    apply Environment.Ensures.bind still.settle
    rintro ⟨delivered, told⟩ _ ⟨settled, rfl⟩
    cases delivered with
    | true => exact .inr ⟨settled, fun _ same => Option.some.inj same ▸ rest decoder rfl⟩
    | false => exact .inr ⟨settled, nofun⟩
  | stopped stop =>
    cases stop with
    | finished => exact .inr ⟨still, nofun⟩
    | hangUp =>
      exact Environment.Ensures.bind still.settle fun _ _ settled => .inr ⟨settled.1, nofun⟩

theorem Locked.serveLoop
    (paired : Paired requests looks (framesIn reads (decoder.buffered + 1) decoder)) :
    Guarded requests (fun conn last => Admitted requests last ∨ conn.Locked)
      (serveLoop reads decoder conn) looks := by
  induction reads generalizing decoder conn looks with
  | nil =>
    apply Environment.Ensures.bind (locked.exchange paired)
    exact fun _ _ told => told.imp id And.left
  | cons read reads induction =>
    apply Environment.Ensures.bind (locked.exchange paired)
    rintro ⟨last, after⟩ _ (admitted | ⟨still, rest⟩)
    · exact (admitted.guarded _).weaken fun _ _ => Or.inl
    cases last with
    | none => exact .inr still
    | some last =>
      have coming := rest last rfl
      apply induction still
      unfold framesIn
      rw [Decoder.decode, Decoder.drain] at coming
      rcases found : (last.feed read).drainLoop ((last.feed read).buffered + 1) with
        ⟨frames, error | later⟩ <;> simpa only [found] using coming

end Connection

variable [DebugText]

/-- Whatever a peer sends, however it is cut into reads, and whatever is answered: when a
connection asks anything of the router, or the node to stop, and when it ends as
authenticated, the peer has been admitted. -/
theorem router_waits_for_a_password (reads : List Bytes) :
    let requests := (parseAll ⟨maxRequestBytes, maxRequestBytes⟩ reads.flatten).1
    surroundings.Ensures (fun looks question _ => question.Open ∨ Admitted requests looks)
      (fun conn looks => conn.authenticated = true → Admitted requests looks)
      (serveConnection reads) [] := by
  intro requests
  rintro _ rfl node _
  refine ⟨.inl trivial, ?_⟩
  cases asks : node.requiresAuth with
  | false =>
    have admitted : Admitted requests [node] := .inl ⟨node, rfl, asks⟩
    exact (admitted.guarded _).weaken fun _ _ still _ => still
  | true =>
    have locked : (Connection.start !node.requiresAuth).Locked := ⟨by rw [asks]; rfl, rfl⟩
    let fresh : Decoder := .new ⟨maxRequestBytes, maxRequestBytes⟩
    have paired : Paired requests [node] (framesIn reads (fresh.buffered + 1) fresh) :=
      ⟨[], rfl, congrArg Prod.fst ((Decoder.dry_new _).decode reads (by decide))⟩
    have served : Guarded requests _ _ [node] := locked.serveLoop paired
    refine Environment.Ensures.weaken served ?_
    rintro conn last (admitted | still) trusted
    · exact admitted
    · rw [still.stranger] at trusted
      cases trusted

end Seedstone.Service
