import Seedstone.Shard.Command

/-!
# RESP2 frames

The `Frame` of `seedstone-resp` and its encoder.  The text of a simple string
or an error is its UTF-8 bytes.  `encode` walks nested arrays with a stack of
frames still to emit; what it emits is `wire`, the encoding by recursion over
the frame.
-/

namespace Seedstone

inductive Frame where
  | simple (text : Bytes)
  | error (text : Bytes)
  | integer (value : Int)
  | bulk (payload : Bytes)
  | null
  | array (elements : List Frame)
deriving Repr

/-- The bytes of a text the source writes out, all of them ASCII. -/
def ascii (text : String) : Bytes :=
  text.toList.map fun char => UInt8.ofNat char.toNat

def crlf : Bytes := [13, 10]

namespace Frame

/-- `encode_one`: a frame's own bytes, and the elements to emit behind it. -/
def encodeOne : Frame → Bytes × List Frame
  | .simple text => (43 :: text ++ crlf, [])
  | .error text => (45 :: text ++ crlf, [])
  | .integer value => (58 :: i64Text value ++ crlf, [])
  | .bulk payload => (36 :: decimal payload.length ++ crlf ++ payload ++ crlf, [])
  | .null => (36 :: i64Text (-1) ++ crlf, [])
  | .array elements => (42 :: decimal elements.length ++ crlf, elements)

mutual

/-- How many frames a frame is made of. -/
def size : Frame → Nat
  | .array elements => sizeAll elements + 1
  | _ => 1

def sizeAll : List Frame → Nat
  | [] => 0
  | frame :: rest => frame.size + sizeAll rest

end

/-- The loop of `encode` over the frames still to emit, the next one first. -/
def encodeLoop : Nat → List Frame → Bytes
  | _, [] => []
  | 0, _ :: _ => []
  | fuel + 1, frame :: pending =>
    let (bytes, elements) := frame.encodeOne
    bytes ++ encodeLoop fuel (elements ++ pending)

def encode (frame : Frame) : Bytes :=
  encodeLoop frame.size [frame]

mutual

/-- What a frame is on the wire. -/
def wire : Frame → Bytes
  | .array elements => 42 :: decimal elements.length ++ crlf ++ wireAll elements
  | .simple text => 43 :: text ++ crlf
  | .error text => 45 :: text ++ crlf
  | .integer value => 58 :: i64Text value ++ crlf
  | .bulk payload => 36 :: decimal payload.length ++ crlf ++ payload ++ crlf
  | .null => 36 :: i64Text (-1) ++ crlf

def wireAll : List Frame → Bytes
  | [] => []
  | frame :: rest => frame.wire ++ wireAll rest

end

theorem sizeAll_append (first second : List Frame) :
    sizeAll (first ++ second) = sizeAll first + sizeAll second := by
  induction first with
  | nil => simp [sizeAll]
  | cons frame rest induction => simp [sizeAll, induction, Nat.add_assoc]

theorem wireAll_append (first second : List Frame) :
    wireAll (first ++ second) = wireAll first ++ wireAll second := by
  induction first with
  | nil => simp [wireAll]
  | cons frame rest induction => simp [wireAll, induction]

theorem size_eq (frame : Frame) : frame.size = sizeAll frame.encodeOne.2 + 1 := by
  cases frame <;> simp [size, encodeOne, sizeAll]

theorem wire_eq (frame : Frame) : frame.wire = frame.encodeOne.1 ++ wireAll frame.encodeOne.2 := by
  cases frame <;> simp [wire, encodeOne, wireAll]

/-- The stack needs no more turns than there are frames. -/
theorem encodeLoop_eq_wireAll (fuel : Nat) :
    ∀ pending : List Frame, sizeAll pending ≤ fuel → encodeLoop fuel pending = wireAll pending := by
  induction fuel with
  | zero =>
    intro pending fits
    cases pending with
    | nil => simp [encodeLoop, wireAll]
    | cons frame rest =>
      rw [sizeAll, size_eq] at fits
      omega
  | succ fuel induction =>
    intro pending fits
    cases pending with
    | nil => simp [encodeLoop, wireAll]
    | cons frame rest =>
      rw [sizeAll, size_eq] at fits
      have left : sizeAll (frame.encodeOne.2 ++ rest) ≤ fuel := by
        rw [sizeAll_append]
        omega
      rw [encodeLoop, wireAll, wire_eq]
      dsimp only
      rw [induction _ left, wireAll_append, List.append_assoc]

theorem encode_eq_wire (frame : Frame) : frame.encode = frame.wire := by
  have enough : sizeAll [frame] ≤ frame.size := by simp [sizeAll]
  rw [encode, encodeLoop_eq_wireAll _ _ enough, wireAll, wireAll, List.append_nil]

end Frame

end Seedstone
