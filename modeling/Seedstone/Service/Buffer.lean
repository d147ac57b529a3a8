import Seedstone.Resp.Budget
import Seedstone.Service.Connection

/-!
# What a connection buffers

A connection reads where its decoder has asked for more and nowhere else, so that the
bytes it keeps are those of the longest request and of one read at most.
-/

namespace Seedstone

/-- A decoder that is drained, and fed a read, of `most` bytes at most, only where it has
asked for more. -/
inductive Decoder.Served (limits : DecoderLimits) (most : Nat) : Decoder → Prop where
  | new : Decoder.Served limits most (.new limits)
  | frame {decoder after : Decoder} {frame : Frame} (served : Decoder.Served limits most decoder)
      (tried : decoder.tryNext = .ok (some frame, after)) : Decoder.Served limits most after
  | read {decoder after : Decoder} (served : Decoder.Served limits most decoder)
      (waits : decoder.tryNext = .ok (none, after)) {read : Bytes} (short : read.length ≤ most) :
      Decoder.Served limits most (after.feed read)

variable {limits : DecoderLimits} {most : Nat} {decoder after : Decoder} {frame : Frame}

namespace Decoder.Served

variable (served : Decoder.Served limits most decoder)

include served

theorem fed : Fed limits decoder := by
  induction served with
  | new => exact .new
  | frame _ tried fed => exact fed.tried tried
  | read _ waits _ fed => exact (fed.tried waits).feed _

theorem buffered_lt (tried : decoder.tryNext = .ok (some frame, after)) :
    after.buffered < decoder.buffered := by
  have trying := served.fed.inStep.1.tryNext
  rw [tried] at trying
  cases trying with
  | frame _ _ remains positive inside =>
    rw [← length_rest, ← length_rest, remains, List.length_drop]
    omega

theorem buffered_le : decoder.buffered ≤ limits.maxFrameBytes + most := by
  induction served with
  | new => exact Nat.zero_le _
  | frame served tried bound => exact Nat.le_trans (served.buffered_lt tried).le bound
  | @read decoder after served waits read short =>
    have kept := served.fed.buffered_le_of_waits waits
    have grown := ((served.fed.tried waits).inStep.1.feed read).2.1
    rw [← length_rest] at kept ⊢
    rw [grown, List.length_append]
    omega

end Decoder.Served

namespace Service

variable [DebugText]

/-- The decoder a connection is left with has asked for more: the laps are enough for the
frames it holds. -/
theorem Connection.dry_drainLoop (fuel : Nat) (served : Decoder.Served limits most decoder)
    (enough : decoder.buffered < fuel) (conn : Connection) :
    (drainLoop fuel decoder conn).Within (fun _ => True) fun drained =>
      ∀ after, drained.1 = .dry after →
        ∃ asked, Decoder.Served limits most asked ∧ asked.tryNext = .ok (none, after) := by
  induction fuel generalizing decoder conn with
  | zero => exact absurd enough (Nat.not_lt_zero _)
  | succ fuel induction =>
    rw [drainLoop]
    split
    · next frame left tried =>
      apply Program.Within.after Ask.look trivial
      intro node
      apply (Program.Within.any _).bind
      rintro ⟨stop, conn⟩ _
      cases stop with
      | some stop => exact .pure nofun
      | none =>
        have fewer := served.buffered_lt tried
        exact induction (served.frame tried) (by omega) conn
    · next left waits => exact .pure fun _ same => ⟨decoder, served, Drained.dry.inj same ▸ waits⟩
    · exact (Program.Within.any _).bind fun _ _ => .pure nofun

theorem Connection.dry_exchange (served : Decoder.Served limits most decoder)
    (conn : Connection) :
    (conn.exchange decoder).Within (fun _ => True) fun told => ∀ after, told.1 = some after →
      ∃ asked, Decoder.Served limits most asked ∧ asked.tryNext = .ok (none, after) := by
  apply (conn.dry_drainLoop _ served (Nat.lt_succ_self _)).bind
  rintro ⟨drained, conn⟩ asked
  cases drained with
  | stopped stop =>
    cases stop with
    | finished => exact .pure nofun
    | hangUp => exact (Program.Within.any _).bind fun _ _ => .pure nofun
  | dry left =>
    apply (Program.Within.any _).bind
    rintro ⟨delivered, conn⟩ _
    cases delivered with
    | true => exact .pure fun _ same => Option.some.inj same ▸ asked left rfl
    | false => exact .pure nofun

/-- Whatever a peer sends, the decoder of a connection holds no more bytes than the longest
request may have and one read: where the connection waits for a read it holds no more than
the longest request, and the read makes it such a decoder again. -/
theorem buffered_le_limit_and_read (served : Decoder.Served limits most decoder) :
    decoder.buffered ≤ limits.maxFrameBytes + most ∧
      ∀ conn : Connection, (conn.exchange decoder).Within (fun _ => True) fun told =>
        ∀ after, told.1 = some after → after.buffered ≤ limits.maxFrameBytes ∧
          ∀ read : Bytes, read.length ≤ most → Decoder.Served limits most (after.feed read) := by
  refine ⟨served.buffered_le, fun conn => (conn.dry_exchange served).weaken ?_⟩
  intro told dry after left
  obtain ⟨asked, served, waits⟩ := dry after left
  exact ⟨served.fed.buffered_le_of_waits waits, fun _ short => served.read waits short⟩

omit [DebugText] in
theorem buffered_le_limit_and_read_header : ∃ after,
    ((Decoder.new ⟨3, 0⟩).feed (ascii "*1")).tryNext = .ok (none, after) ∧
      (after.feed (ascii "00")).buffered = 4 ∧ (after.feed (ascii "00")).buffered ≤ 3 + 2 := by
  have first : Decoder.Served ⟨3, 0⟩ 2 ((Decoder.new ⟨3, 0⟩).feed (ascii "*1")) :=
    .read .new rfl (by decide)
  let _ : DebugText := ⟨id⟩
  refine ⟨_, rfl, rfl, ?_⟩
  exact (buffered_le_limit_and_read (first.read rfl (by decide))).1

end Service

end Seedstone
