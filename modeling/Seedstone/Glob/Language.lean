import Seedstone.Glob
import Seedstone.Library.Wildcard

/-!
# The language of a pattern

A pattern read left to right is a list of tokens, and its language is that of
the wildcard pattern the tokens stand for.  The matcher of `glob.rs` is the search
with one remembered star over those tokens: it accepts exactly the language, and
its loop ends on every input.
-/

namespace Seedstone

namespace Glob

variable {pattern rest : Bytes} {index : Nat}

inductive Member where
  | single (byte : UInt8)
  | range (first last : UInt8)
deriving DecidableEq, Repr

/-- The bytes between the two ends of a range, whichever is the greater. -/
def Member.holds (byte : UInt8) : Member → Bool
  | .single member => member == byte
  | .range first last => min first last ≤ byte && byte ≤ max first last

/-- The members of a class up to the first `]` no member takes, and what stands
behind it. -/
def members : Bytes → List Member × Bytes
  | [] => ([], [])
  | 93 :: rest => ([], rest)
  | 92 :: escaped :: rest => (.single escaped :: (members rest).1, (members rest).2)
  | first :: 45 :: last :: rest => (.range first last :: (members rest).1, (members rest).2)
  | byte :: rest => (.single byte :: (members rest).1, (members rest).2)

inductive Token where
  | run
  | any
  | oneOf (negated : Bool) (members : List Member)
  | byte (byte : UInt8)
deriving DecidableEq, Repr

/-- The class behind a `[`, and what stands behind it. -/
def classToken (rest : Bytes) : Token × Bytes :=
  match rest with
  | 94 :: rest => (.oneOf true (members rest).1, (members rest).2)
  | _ => (.oneOf false (members rest).1, (members rest).2)

theorem length_members (rest : Bytes) : (members rest).2.length ≤ rest.length := by
  fun_induction members rest <;> simp_all <;> omega

theorem length_classToken (rest : Bytes) : (classToken rest).2.length ≤ rest.length := by
  unfold classToken
  split
  · next rest =>
    have short := length_members rest
    rw [List.length_cons]
    dsimp only
    omega
  · exact length_members rest

def tokens : Bytes → List Token
  | [] => []
  | 42 :: rest => .run :: tokens rest
  | 63 :: rest => .any :: tokens rest
  | 91 :: rest => (classToken rest).1 :: tokens (classToken rest).2
  | 92 :: escaped :: rest => .byte escaped :: tokens rest
  | byte :: rest => .byte byte :: tokens rest
termination_by pattern => pattern.length
decreasing_by
  all_goals simp only [List.length_cons]
  all_goals first | omega | exact Nat.lt_succ_of_le (length_classToken _)

def Token.piece : Token → Wildcard.Piece UInt8
  | .run => .run
  | .any => .one fun _ => true
  | .oneOf negated members => .one fun byte => members.any (Member.holds byte) != negated
  | .byte wanted => .one fun byte => wanted == byte

/-- The subjects a pattern stands for. -/
def InLanguage (pattern subject : Bytes) : Prop :=
  Wildcard.Matches ((tokens pattern).map Token.piece) subject

theorem getElem?_of_drop (left : pattern.drop index = rest) (offset : Nat) :
    pattern[index + offset]? = rest[offset]? := by
  rw [← left, List.getElem?_drop]

theorem drop_of_drop (left : pattern.drop index = rest) (offset : Nat) :
    pattern.drop (index + offset) = rest.drop offset := by
  rw [← left, List.drop_drop]

theorem lt_length_of_drop (left : pattern.drop index = rest) (offset : Nat) :
    index + offset < pattern.length ↔ offset < rest.length := by
  rw [← left, List.length_drop]
  omega

theorem classLoop_eq (pattern : Bytes) (byte : UInt8) (negated : Bool) (steps : Nat) :
    ∀ (index : Nat) (hit : Bool) {rest : Bytes}, pattern.drop index = rest → rest.length < steps →
      ∃ stop, classLoop pattern byte negated steps index hit =
          ((hit || (members rest).1.any (Member.holds byte)) != negated, stop) ∧
        pattern.drop stop = (members rest).2 := by
  induction steps with
  | zero =>
    intro index hit rest _ short
    omega
  | succ steps induction =>
    intro index hit rest left enough
    have here := getElem?_of_drop left 0
    have next := getElem?_of_drop left 1
    have third := getElem?_of_drop left 2
    have more := lt_length_of_drop left 1
    unfold classLoop
    rw [Nat.add_zero] at here
    rw [here]
    revert here next third more enough left
    fun_cases members rest with
    | case1 =>
      intro left _ _ _ _ _
      exact ⟨index, by simp, left⟩
    | case2 rest =>
      intro left _ _ _ _ _
      exact ⟨index + 1, by simp, drop_of_drop left 1⟩
    | case3 escaped rest =>
      intro left enough _ next _ more
      have short : rest.length < steps := by
        simp only [List.length_cons] at enough
        omega
      obtain ⟨stop, read, behind⟩ := induction (index + 2) (hit || escaped == byte)
        (drop_of_drop left 2) short
      have inside : index + 1 < pattern.length := more.mpr (by simp)
      refine ⟨stop, ?_, behind⟩
      simp only [List.getElem?_cons_zero, next, List.getElem?_cons_succ]
      rw [if_neg (by decide), if_pos ⟨trivial, inside⟩]
      refine Eq.trans ?_ (read.trans ?_)
      · rfl
      · simp only [List.drop_succ_cons, List.drop_zero, List.any_cons, Member.holds, Bool.or_assoc]
    | case4 first last rest closes escapes =>
      intro left enough _ next third _
      have short : rest.length < steps := by
        simp only [List.length_cons] at enough
        omega
      obtain ⟨stop, read, behind⟩ := induction (index + 3)
        (hit || (min first last ≤ byte && byte ≤ max first last)) (drop_of_drop left 3) short
      refine ⟨stop, ?_, behind⟩
      simp only [List.getElem?_cons_zero, next, third, List.getElem?_cons_succ]
      rw [if_neg closes, if_neg (fun both => escapes both.1)]
      refine read.trans ?_
      simp only [List.drop_succ_cons, List.drop_zero, List.any_cons, Member.holds, Bool.or_assoc]
    | case5 member rest closes escapes ranges =>
      intro left enough _ next third more
      have short : rest.length < steps := by
        simp only [List.length_cons] at enough
        omega
      obtain ⟨stop, read, behind⟩ := induction (index + 1) (hit || member == byte)
        (drop_of_drop left 1) short
      have last : ¬(member = 92 ∧ index + 1 < pattern.length) := by
        rintro ⟨escape, inside⟩
        have filled := more.mp inside
        obtain ⟨escaped, rest, rfl⟩ : ∃ escaped others, rest = escaped :: others := by
          cases rest with
          | nil => simp at filled
          | cons escaped others => exact ⟨escaped, others, rfl⟩
        exact escapes escaped rest escape rfl
      refine ⟨stop, ?_, behind⟩
      simp only [List.getElem?_cons_zero]
      rw [if_neg closes, if_neg last]
      split
      · next stop' dash ends =>
        rw [next] at dash
        rw [third] at ends
        obtain ⟨rest, rfl⟩ : ∃ others, rest = 45 :: stop' :: others := by
          match rest, dash, ends with
          | _ :: _ :: others, rfl, rfl => exact ⟨others, rfl⟩
        exact (ranges stop' rest rfl).elim
      · refine read.trans ?_
        simp only [List.drop_succ_cons, List.drop_zero, List.any_cons, Member.holds, Bool.or_assoc]

/-- The class at a `[`: whether it takes the byte, and how wide it is. -/
theorem classAt_eq (rest : Bytes) (byte : UInt8) :
    ∃ negated members width, (classToken rest).1 = .oneOf negated members ∧
      classAt (91 :: rest) byte = (members.any (Member.holds byte) != negated, width) ∧
      (91 :: rest).drop width = (classToken rest).2 := by
  unfold classAt classToken
  split
  · next rest =>
    obtain ⟨stop, read, behind⟩ := classLoop_eq (91 :: 94 :: rest) byte true
      ((91 :: 94 :: rest : Bytes).length + 1) 2 false rfl
      (by simp only [List.drop_succ_cons, List.drop_zero, List.length_cons]; omega)
    exact ⟨true, _, stop, rfl, read, behind⟩
  · next plain =>
    have negated : ((91 :: rest : Bytes)[1]? == some 94) = false := by
      cases rest with
      | nil => rfl
      | cons first others =>
        simp only [List.getElem?_cons_succ, List.getElem?_cons_zero, beq_eq_false_iff_ne]
        rintro ⟨rfl⟩
        exact plain others rfl
    obtain ⟨stop, read, behind⟩ := classLoop_eq (91 :: rest) byte false
      ((91 :: rest : Bytes).length + 1) 1 false rfl
      (by simp only [List.drop_succ_cons, List.drop_zero, List.length_cons]; omega)
    rw [negated]
    exact ⟨false, _, stop, rfl, read, behind⟩

/-- Where the search stands when the matcher is in `state`. -/
def State.search (pattern subject : Bytes) (state : State) : Wildcard.Search UInt8 :=
  ⟨(tokens (pattern.drop state.p)).map Token.piece, subject.drop state.s,
    state.star.map fun star =>
      ((tokens (pattern.drop (star + 1))).map Token.piece, subject.drop state.resume)⟩

/-- A star resumes no later than where the matcher stands. -/
def State.Ordered (state : State) : Prop :=
  state.star ≠ none → state.resume ≤ state.s

variable {pattern subject : Bytes} {state : State} {byte : UInt8}

/-- A turn of the loop does what a step of the search does. -/
def Agrees (pattern subject : Bytes) (state : State) (outcome : Option State) : Prop :=
  outcome.map (State.search pattern subject) = (state.search pattern subject).step ∧
    ∀ next ∈ outcome, next.Ordered

theorem backtrack_eq (ordered : state.Ordered) (inside : state.s < subject.length) :
    (backtrack state).map (State.search pattern subject) = (state.search pattern subject).back ∧
      ∀ next ∈ backtrack state, next.Ordered := by
  cases star : state.star with
  | none => simp [backtrack, State.search, Wildcard.Search.back, star]
  | some position =>
    have before : state.resume < subject.length :=
      Nat.lt_of_le_of_lt (ordered (by simp [star])) inside
    have front := List.drop_eq_getElem_cons before
    constructor
    · unfold backtrack State.search Wildcard.Search.back
      simp only [star, Option.map_some]
      rw [front]
    · intro next member
      simp only [backtrack, star, Option.map_some, Option.mem_some_iff] at member
      subst member
      exact fun _ => Nat.le_refl _

theorem turn_literal {literal : UInt8} (stands : pattern[state.p]? = some literal)
    (star : literal ≠ 42) (any : literal ≠ 63) (bracket : literal ≠ 91) :
    turn pattern byte state =
      if literal = 92 ∧ state.p + 1 < pattern.length then
        if pattern[state.p + 1]? = some byte then
          some { state with p := state.p + 2, s := state.s + 1 }
        else
          backtrack state
      else if literal = byte then
        some { state with p := state.p + 1, s := state.s + 1 }
      else
        backtrack state := by
  unfold turn
  rw [stands]
  split
  · next found => exact absurd (Option.some.inj found) star
  · next found => exact absurd (Option.some.inj found) any
  · next found => exact absurd (Option.some.inj found) bracket
  · next found =>
    cases found
    rfl
  · next found => cases found

theorem turn_agrees (ordered : state.Ordered) (here : subject[state.s]? = some byte) :
    Agrees pattern subject state (turn pattern byte state) := by
  have inside : state.s < subject.length := (List.getElem?_eq_some_iff.mp here).1
  have front : subject.drop state.s = byte :: subject.drop (state.s + 1) := by
    rw [List.drop_eq_getElem_cons inside, (List.getElem?_eq_some_iff.mp here).2]
  have fails : (backtrack state).map (State.search pattern subject) =
      (state.search pattern subject).back ∧ ∀ next ∈ backtrack state, next.Ordered :=
    backtrack_eq ordered inside
  have later : state.star ≠ none → state.resume ≤ state.s + 1 :=
    fun starred => Nat.le_succ_of_le (ordered starred)
  generalize left : pattern.drop state.p = rest
  have first := getElem?_of_drop left 0
  have second := getElem?_of_drop left 1
  have more := lt_length_of_drop left 1
  have stands : state.search pattern subject =
      ⟨(tokens rest).map Token.piece, byte :: subject.drop (state.s + 1),
        (state.search pattern subject).star⟩ := by
    rw [State.search, left, front]
  rw [Nat.add_zero] at first
  unfold Agrees
  rw [stands]
  revert left first second more
  fun_cases tokens rest with
  | case1 =>
    intro left first second more
    rw [turn, first]
    exact fails
  | case2 rest =>
    intro left first second more
    rw [turn, first]
    refine ⟨?_, ?_⟩
    · have behind : pattern.drop (state.p + 1) = rest := drop_of_drop left 1
      simp only [List.getElem?_cons_zero, Option.map_some, State.search, behind, front]
      rfl
    · rintro next ⟨rfl⟩
      exact fun _ => Nat.le_refl _
  | case3 rest =>
    intro left first second more
    rw [turn, first]
    refine ⟨?_, ?_⟩
    · have behind : pattern.drop (state.p + 1) = rest := drop_of_drop left 1
      simp only [List.getElem?_cons_zero, Option.map_some, State.search, behind]
      rfl
    · rintro next ⟨rfl⟩
      exact later
  | case4 rest =>
    intro left first second more
    obtain ⟨negated, members, width, token, taken, behind⟩ := classAt_eq rest byte
    rw [turn, first]
    simp only [List.getElem?_cons_zero, left, taken]
    rw [← left, List.drop_drop] at behind
    cases hit : members.any (Member.holds byte) != negated with
    | true =>
      refine ⟨?_, ?_⟩
      · simp only [if_true, Option.map_some, State.search, behind, List.map_cons, token,
          Token.piece, Wildcard.Search.step, hit]
      · intro next member
        cases member
        exact later
    | false =>
      refine ⟨?_, fails.2⟩
      simp only [Bool.false_eq_true, if_false, fails.1, List.map_cons, token, Token.piece,
        Wildcard.Search.step, hit]
      rfl
  | case5 escaped rest =>
    intro left first second more
    have follows : state.p + 1 < pattern.length := more.mpr (by simp)
    have stands : pattern[state.p + 1]? = some escaped := second
    rw [turn_literal first (by decide) (by decide) (by decide), if_pos ⟨rfl, follows⟩, stands]
    by_cases same : escaped = byte
    · subst same
      rw [if_pos rfl]
      refine ⟨?_, ?_⟩
      · have behind : pattern.drop (state.p + 2) = rest := drop_of_drop left 2
        simp only [Option.map_some, State.search, behind, List.map_cons, Token.piece,
          Wildcard.Search.step, beq_self_eq_true, if_true]
      · intro next member
        cases member
        exact later
    · rw [if_neg (fun found => same (Option.some.inj found))]
      refine ⟨?_, fails.2⟩
      rw [fails.1]
      simp only [List.map_cons, Token.piece, Wildcard.Search.step, beq_iff_eq, if_neg same]
      rfl
  | case6 literal rest star any bracket escapes =>
    intro left first second more
    have last : ¬(literal = 92 ∧ state.p + 1 < pattern.length) := by
      rintro ⟨escape, follows⟩
      cases rest with
      | nil => simp at more; omega
      | cons escaped rest => exact escapes escaped rest escape rfl
    rw [turn_literal first star any bracket, if_neg last]
    by_cases same : literal = byte
    · subst same
      rw [if_pos rfl]
      refine ⟨?_, ?_⟩
      · have behind : pattern.drop (state.p + 1) = rest := drop_of_drop left 1
        simp only [Option.map_some, State.search, behind, List.map_cons, Token.piece,
          Wildcard.Search.step, beq_self_eq_true, if_true]
      · intro next member
        cases member
        exact later
    · rw [if_neg same]
      refine ⟨?_, fails.2⟩
      rw [fails.1]
      simp only [List.map_cons, Token.piece, Wildcard.Search.step, beq_iff_eq, if_neg same]
      rfl

/-- The loop's next state; none where it is over. -/
def advance (pattern subject : Bytes) (state : State) : Option State :=
  subject[state.s]?.bind fun byte => turn pattern byte state

theorem advance_agrees (ordered : state.Ordered) :
    Agrees pattern subject state (advance pattern subject state) := by
  unfold advance
  cases here : subject[state.s]? with
  | none =>
    have spent : subject.drop state.s = [] :=
      List.drop_eq_nil_of_le (List.getElem?_eq_none_iff.mp here)
    refine ⟨?_, by simp⟩
    simp [State.search, spent, Wildcard.Search.step]
  | some byte => exact turn_agrees ordered here

theorem all_star_eq (rest : Bytes) :
    rest.all (fun byte => byte == 42) = ((tokens rest).map Token.piece).all Wildcard.isRun := by
  fun_induction tokens rest with
  | case1 => rfl
  | case2 rest induction => simpa [Token.piece, Wildcard.isRun] using induction
  | case3 | case5 => simp [Token.piece, Wildcard.isRun]
  | case4 rest induction =>
    obtain ⟨negated, members, _, token, _⟩ := classAt_eq rest 0
    simp [token, Token.piece, Wildcard.isRun]
  | case6 literal rest star any bracket escapes induction =>
    have other : literal ≠ 42 := star
    simp [Token.piece, Wildcard.isRun, other]

theorem matchLoop_eq (steps : Nat) :
    ∀ {state : State}, state.Ordered →
      matchLoop pattern subject steps state = (state.search pattern subject).loop steps := by
  induction steps with
  | zero => exact fun _ => rfl
  | succ steps induction =>
    intro state ordered
    have agrees : Agrees pattern subject state (advance pattern subject state) :=
      advance_agrees ordered
    unfold matchLoop Wildcard.Search.loop
    cases here : subject[state.s]? with
    | none =>
      have spent : (state.search pattern subject).subject = [] :=
        List.drop_eq_nil_of_le (List.getElem?_eq_none_iff.mp here)
      rw [spent]
      exact all_star_eq _
    | some byte =>
      have inside := (List.getElem?_eq_some_iff.mp here).1
      have front : (state.search pattern subject).subject =
          subject[state.s] :: subject.drop (state.s + 1) := List.drop_eq_getElem_cons inside
      rw [front]
      unfold Agrees advance at agrees
      rw [here, Option.bind_some] at agrees
      dsimp only
      rw [← agrees.1]
      cases stepped : turn pattern byte state with
      | none => rfl
      | some next => exact induction (agrees.2 next stepped)

theorem length_tokens (pattern : Bytes) : (tokens pattern).length ≤ pattern.length := by
  fun_induction tokens pattern with
  | case4 rest induction =>
    have short := length_classToken rest
    simp only [List.length_cons]
    omega
  | _ => simp_all <;> omega

theorem iterate_advance (turns : Nat) :
    ∀ {state : Option State}, (∀ held ∈ state, held.Ordered) →
      ((fun state => state.bind (advance pattern subject))^[turns] state).map
          (State.search pattern subject) =
        (fun search => search.bind Wildcard.Search.step)^[turns]
          (state.map (State.search pattern subject)) := by
  induction turns with
  | zero => exact fun _ => rfl
  | succ turns induction =>
    intro state ordered
    rw [Function.iterate_succ_apply, Function.iterate_succ_apply]
    cases state with
    | none => exact induction (by simp)
    | some state =>
      have agrees : Agrees pattern subject state (advance pattern subject state) :=
        advance_agrees (ordered state rfl)
      rw [Option.bind_some, Option.map_some, Option.bind_some, ← agrees.1]
      exact induction agrees.2

/-- The matcher accepts exactly the language of the pattern, and its loop ends on
every input. -/
theorem isMatch_exact (pattern subject : Bytes) :
    (isMatch pattern subject = true ↔ InLanguage pattern subject) ∧
      ∃ turns ≤ (subject.length + 2) * (pattern.length + 2),
        (fun state => state.bind (advance pattern subject))^[turns] (some ⟨0, 0, none, 0⟩) =
          none := by
  have ordered : State.Ordered ⟨0, 0, none, 0⟩ := fun starred => absurd rfl starred
  have begins : State.search pattern subject ⟨0, 0, none, 0⟩ =
      .start ((tokens pattern).map Token.piece) subject := rfl
  have sound : (Wildcard.Search.start ((tokens pattern).map Token.piece) subject).Sound
      pattern.length := by
    apply Wildcard.Search.sound_start
    rw [List.length_map]
    exact length_tokens pattern
  have effort : (Wildcard.Search.start ((tokens pattern).map Token.piece) subject).effort
      pattern.length < (subject.length + 2) * (pattern.length + 2) := by
    have short := length_tokens pattern
    simp only [Wildcard.Search.effort, Wildcard.Search.start, List.length_map]
    have wide : (subject.length + 1) * (pattern.length + 1) + (pattern.length + 1) ≤
        (subject.length + 2) * (pattern.length + 2) := by
      have scaled : (subject.length + 2) * (pattern.length + 1) ≤
          (subject.length + 2) * (pattern.length + 2) := Nat.mul_le_mul_left _ (by omega)
      rw [← Nat.succ_mul]
      exact scaled
    omega
  constructor
  · rw [isMatch, matchLoop_eq _ ordered, begins, sound.loop _ effort,
      Wildcard.Search.viable_start, InLanguage]
  · obtain ⟨turns, within, overrun⟩ := sound.ends _ effort
    refine ⟨turns, within, ?_⟩
    have same := @iterate_advance pattern subject turns (some ⟨0, 0, none, 0⟩)
      (by rintro held ⟨rfl⟩; exact ordered)
    rw [Option.map_some, begins, overrun, Option.map_eq_none_iff] at same
    exact same

end Glob

end Seedstone
