import Seedstone.Library.Fallible
import Seedstone.Service.Options

/-!
# The order of `SET`'s options

An option of `SET` comes with the argument it takes, and what the options come
to depends on no order but that among occurrences of one of them: of these the
last one counts, and the earlier ones are not even read.
-/

namespace Seedstone.Service

/-- What an option word asks for, by the tests of the walk in their order. -/
inductive Asked where
  | timed (unit : ExpiryUnit)
  | keepTtl
  | cond (wanted : Cond)
  | get
  | unknown

def asked (word : Bytes) : Asked :=
  match expiryUnit word with
  | some unit => .timed unit
  | none =>
    if eqIgnoreAsciiCase word (ascii "KEEPTTL") then .keepTtl
    else
      match condition word with
      | some wanted => .cond wanted
      | none => if eqIgnoreAsciiCase word (ascii "GET") then .get else .unknown

namespace Asked

/-- An option has the argument it takes; a word that is no option may have one. -/
def Takes : Asked → Option Bytes → Prop
  | timed _, argument => argument.isSome
  | unknown, _ => True
  | _, argument => argument = none

def expiry? : Asked → Option ExpiryOption
  | timed unit => some unit.option
  | keepTtl => some .keepTtl
  | _ => none

def cond? : Asked → Option Cond
  | cond wanted => some wanted
  | _ => none

/-- Two expiry options, or both conditions. -/
def Conflicts (one two : Asked) : Prop :=
  (∃ first second, one.expiry? = some first ∧ two.expiry? = some second ∧ first ≠ second) ∨
    ∃ first second, one.cond? = some first ∧ two.cond? = some second ∧ first ≠ second

/-- The walk goes on behind the option. -/
def admitted (walk : SetWalk) : Asked → Bool
  | timed unit => walk.named.all (· = unit.option)
  | keepTtl => walk.named.all (· = .keepTtl)
  | cond wanted => walk.cond.all (· = wanted)
  | get => true
  | unknown => false

def update (value : Bytes) (walk : SetWalk) : Asked → SetWalk
  | timed unit => { walk with named := some unit.option, expiryArg := some (unit, value) }
  | keepTtl => { walk with named := some .keepTtl, keepTtl := true }
  | cond wanted => { walk with cond := some wanted }
  | get => { walk with get := true }
  | unknown => walk

/-- The walk has heeded the option. -/
structure Held (walk : SetWalk) (asked : Asked) : Prop where
  known : asked ≠ unknown
  expiry : ∀ option, asked.expiry? = some option → walk.named = some option
  cond : ∀ wanted, asked.cond? = some wanted → walk.cond = some wanted

theorem Held.update {asked : Asked} {walk : SetWalk} (admitted : asked.admitted walk)
    (value : Bytes) :
    asked.Held (asked.update value walk) ∧
      ∀ other : Asked, other.Held walk → other.Held (asked.update value walk) := by
  cases asked <;> grind [Held, Asked.admitted, Asked.update, expiry?, cond?]

theorem Held.not_conflicts {one two : Asked} {walk : SetWalk} (first : one.Held walk)
    (second : two.Held walk) : ¬one.Conflicts two := by
  grind [Held, Conflicts]

end Asked

theorem any_ne {α : Type} [DecidableEq α] (held : Option α) (wanted : α) :
    held.any (fun already => already ≠ wanted) = !held.all (· = wanted) := by
  cases held <;> simp

theorem bind_claim (held : Option ExpiryOption) (option : ExpiryOption)
    (next : Option ExpiryOption → Except Bytes SetWalk) :
    (claim held option >>= next) =
      if held.all (· = option) then next (some option) else .error syntaxError := by
  simp only [claim, any_ne]
  cases held.all (· = option) <;> rfl

structure OptionGroup where
  word : Bytes
  argument : Option Bytes
  fits : (asked word).Takes argument

namespace OptionGroup

def tokens (group : OptionGroup) : List Bytes :=
  group.word :: group.argument.toList

/-- The option, whatever the case of its word. -/
def option (group : OptionGroup) : Bytes :=
  group.word.map asciiLower

def heed (walk : SetWalk) (group : OptionGroup) : Except Bytes SetWalk :=
  if (asked group.word).admitted walk then
    .ok ((asked group.word).update (group.argument.getD []) walk)
  else
    .error syntaxError

variable (walk : SetWalk) {one two : OptionGroup}

theorem asked_eq_of_option_eq (same : one.option = two.option) :
    asked one.word = asked two.word := by
  have reads : ∀ name, eqIgnoreAsciiCase one.word name = eqIgnoreAsciiCase two.word name :=
    fun name => congrArg (· == name.map asciiLower) same
  simp only [asked, expiryUnit, condition, reads]

theorem expiryUnit_of_asked {word : Bytes} {unit : ExpiryUnit}
    (timed : asked word = .timed unit) : expiryUnit word = some unit := by
  grind [asked]

theorem option_eq_of_timed {unit other : ExpiryUnit} (first : asked one.word = .timed unit)
    (second : asked two.word = .timed other) (same : unit.option = other.option) :
    one.option = two.option := by
  have first := expiryUnit_of_asked first
  have second := expiryUnit_of_asked second
  grind [expiryUnit, eqIgnoreAsciiCase, option]

variable (one two)

theorem bind_heed (next : SetWalk → Except Bytes SetWalk) :
    (heed walk one >>= next) =
      if (asked one.word).admitted walk then
        next ((asked one.word).update (one.argument.getD []) walk)
      else .error syntaxError := by
  unfold heed
  cases (asked one.word).admitted walk <;> rfl

theorem setOptionsLoop_append (rest : List Bytes) :
    setOptionsLoop (one.tokens ++ rest) walk = (heed walk one >>= setOptionsLoop rest) := by
  obtain ⟨word, argument, takes⟩ := one
  simp only [tokens, List.cons_append, setOptionsLoop, bind_heed, bind_claim, any_ne]
  unfold asked at takes ⊢
  cases argument <;> grind [Asked.Takes, Asked.admitted, Asked.update]

theorem setOptionsLoop_flatMap (groups : List OptionGroup) :
    setOptionsLoop (groups.flatMap tokens) walk = groups.foldlM heed walk := by
  induction groups generalizing walk with
  | nil => rfl
  | cons group rest induction =>
    rw [List.flatMap_cons, setOptionsLoop_append, List.foldlM_cons, funext induction]

theorem heed_comm (differ : one.option ≠ two.option) :
    (heed walk one >>= (heed · two)) = (heed walk two >>= (heed · one)) := by
  have apart : ∀ unit other, asked one.word = .timed unit → asked two.word = .timed other →
      unit.option ≠ other.option :=
    fun _ _ first second same => differ (option_eq_of_timed first second same)
  rw [bind_heed, bind_heed, heed, heed]
  generalize asked one.word = first, asked two.word = second at *
  cases first <;> cases second <;> grind [Asked.admitted, Asked.update]

theorem heed_absorb (same : one.option = two.option) :
    (heed walk one >>= (heed · two)) = heed walk two := by
  rw [bind_heed, heed, heed, asked_eq_of_option_eq same]
  cases asked two.word <;> grind [Asked.admitted, Asked.update]

variable (groups : List OptionGroup)

/-- A walk that is not refused has heeded all it has met. -/
theorem held_or_refused :
    (∃ last, groups.foldlM heed walk = .ok last ∧
        ∀ asked : Asked, asked.Held walk ∨ asked ∈ groups.map (Service.asked ·.word) →
          asked.Held last) ∨ groups.foldlM heed walk = .error syntaxError := by
  induction groups generalizing walk with
  | nil => exact .inl ⟨walk, rfl, by simp⟩
  | cons first rest induction =>
    rw [List.foldlM_cons, bind_heed]
    by_cases admitted : (asked first.word).admitted walk
    · obtain ⟨gained, kept⟩ := Asked.Held.update admitted (first.argument.getD [])
      rw [if_pos admitted]
      refine (induction _).imp_left fun ⟨last, run, held⟩ => ⟨last, run, fun asked among => ?_⟩
      obtain earlier | member := among
      · exact held asked (.inl (kept asked earlier))
      · obtain rfl | member := List.mem_cons.1 member
        · exact held _ (.inl gained)
        · exact held asked (.inr member)
    · rw [if_neg admitted]
      exact .inr rfl

end OptionGroup

open OptionGroup in
/-- The options of `SET` may be permuted as long as the occurrences of one option keep their
order, all but the last occurrence of an option may go, and a conflict or an unknown word is
a syntax error whatever the arguments are. -/
theorem set_options_order_free (node : NodeInfo) (groups : List OptionGroup) :
    (∀ others, groups.Perm others →
        (∀ option, groups.filter (·.option = option) = others.filter (·.option = option)) →
        setOptions (others.flatMap tokens) node = setOptions (groups.flatMap tokens) node) ∧
      (∀ front group back, groups = front ++ group :: back →
        (∃ later ∈ back, later.option = group.option) →
        setOptions ((front ++ back).flatMap tokens) node =
          setOptions (groups.flatMap tokens) node) ∧
      ((∃ group ∈ groups, asked group.word = .unknown) ∨
          (∃ one ∈ groups, ∃ two ∈ groups, (asked one.word).Conflicts (asked two.word)) →
        setOptions (groups.flatMap tokens) node = .error syntaxError) := by
  simp only [setOptions, setOptionsLoop_flatMap]
  refine ⟨fun others _ same => ?_, ?_, fun refused => ?_⟩
  · rw [Fallible.foldlM_eq_of_filter_eq heed_comm same]
  · rintro front group back rfl later
    simp only [List.foldlM_append, Fallible.foldlM_cons_of_later heed_comm heed_absorb later]
  · obtain ⟨last, -, held⟩ | run := held_or_refused ⟨none, none, none, false, false⟩ groups
    · have met : ∀ group ∈ groups, (asked group.word).Held last := fun group member =>
        held _ (.inr (List.mem_map_of_mem member))
      obtain ⟨group, member, unknown⟩ | ⟨one, among, two, within, conflict⟩ := refused
      · exact absurd unknown (met group member).known
      · exact absurd conflict ((met one among).not_conflicts (met two within))
    · rw [run]
      rfl

open OptionGroup in
/-- `EX ten NX ex 20` and `EX ten KEEPTTL`. -/
theorem set_options_order_free_ex :
    let node : NodeInfo := ⟨[], 0, [], 0, 0, ⟨none, .noEviction⟩, none, none⟩
    let set := fun words : List String => setOptions (words.map ascii) node
    set ["NX", "EX", "ten", "ex", "20"] = set ["EX", "ten", "NX", "ex", "20"] ∧
      set ["NX", "ex", "20"] = set ["EX", "ten", "NX", "ex", "20"] ∧
      set ["EX", "ten", "KEEPTTL"] = .error syntaxError := by
  intro node set
  let ten : OptionGroup := ⟨ascii "EX", some (ascii "ten"), rfl⟩
  let twenty : OptionGroup := ⟨ascii "ex", some (ascii "20"), rfl⟩
  let nx : OptionGroup := ⟨ascii "NX", none, rfl⟩
  let keep : OptionGroup := ⟨ascii "KEEPTTL", none, rfl⟩
  obtain ⟨permuted, deleted, -⟩ := set_options_order_free node [ten, nx, twenty]
  obtain ⟨-, -, refused⟩ := set_options_order_free node [ten, keep]
  refine ⟨permuted [nx, ten, twenty] (.swap _ _ _) fun option => ?_,
    deleted [] ten [nx, twenty] rfl ⟨twenty, by simp, by decide +kernel⟩,
    refused (.inr ⟨ten, by simp, keep, by simp, .inl ⟨.ex, .keepTtl, rfl, rfl, nofun⟩⟩)⟩
  have apart : ten.option ≠ nx.option := by decide +kernel
  by_cases first : ten.option = option <;> by_cases second : nx.option = option <;> simp_all

end Seedstone.Service
