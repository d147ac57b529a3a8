import Seedstone.Dict.Shape
import Seedstone.Library.Machine
import Mathlib.Data.Finmap

/-!
# A dict refines a finite map

What a dict is for: a map from keys to entries, with a counter that stamps the
entries it touches.  Every sequence of operations answers as it does on that
map, leaves the same entry under every key, and never holds a key twice,
whatever the tables did underneath.
-/

namespace Seedstone

inductive DictOp where
  | insert (key : Bytes) (entry : Entry)
  | remove (key : Bytes)
  | setDeadline (key : Bytes) (expiresAt : Option Nat)
  | touch (key : Bytes)
  | rehashStep (buckets : Nat)
  | clear
deriving DecidableEq, Repr

/-- What an operation hands back to its caller. -/
inductive DictAnswer where
  | done
  | removed (entry : Option Entry)
  | found (present : Bool)
deriving DecidableEq, Repr

namespace Dict

variable [SipHasher]

def step (dict : Dict) : DictOp → DictAnswer × Dict
  | .insert key entry => (.done, dict.insert key entry)
  | .remove key =>
    let (removed, dict) := dict.remove key
    (.removed removed, dict)
  | .setDeadline key expiresAt =>
    let (present, dict) := dict.setDeadline key expiresAt
    (.found present, dict)
  | .touch key => (.done, dict.touch key)
  | .rehashStep buckets => (.done, dict.rehashStep buckets)
  | .clear => (.done, dict.clear)

def run (dict : Dict) (ops : List DictOp) : List DictAnswer × Dict :=
  Machine.run step dict ops

end Dict

/-- The map a dict stands for, and the counter behind its stamps. -/
structure PlainMap where
  entries : Finmap (fun _ : Bytes => Entry)
  clock : UInt32

namespace PlainMap

def empty : PlainMap :=
  ⟨∅, 0⟩

/-- Change the entry of a key that is there. -/
def modify (map : PlainMap) (key : Bytes) (change : Entry → Entry) : PlainMap :=
  match map.entries.lookup key with
  | none => map
  | some entry => { map with entries := map.entries.insert key (change entry) }

def step (map : PlainMap) : DictOp → DictAnswer × PlainMap
  | .insert key entry =>
    (.done, { map with entries := map.entries.insert key entry })
  | .remove key =>
    (.removed (map.entries.lookup key),
      { map with entries := map.entries.erase key })
  | .setDeadline key expiresAt =>
    (.found (map.entries.lookup key).isSome,
      map.modify key (fun entry => { entry with expiresAt := expiresAt }))
  | .touch key =>
    (.done,
      { map.modify key (fun entry => { entry with touched := map.clock + 1 })
        with clock := map.clock + 1 })
  | .rehashStep _ => (.done, map)
  | .clear => (.done, empty)

def run (map : PlainMap) (ops : List DictOp) : List DictAnswer × PlainMap :=
  Machine.run step map ops

@[simp]
theorem modify_clock (map : PlainMap) (key : Bytes) (change : Entry → Entry) :
    (map.modify key change).clock = map.clock := by
  unfold modify
  split <;> rfl

theorem lookup_modify (map : PlainMap) (key other : Bytes) (change : Entry → Entry) :
    (map.modify key change).entries.lookup other =
      if other = key then (map.entries.lookup key).map change
      else map.entries.lookup other := by
  unfold modify
  cases found : map.entries.lookup key with
  | none =>
    by_cases same : other = key
    · rw [if_pos same, same, Option.map_none]
      exact found
    · rw [if_neg same]
  | some entry =>
    by_cases same : other = key
    · rw [if_pos same, same, Option.map_some]
      exact Finmap.lookup_insert map.entries
    · rw [if_neg same]
      exact Finmap.lookup_insert_of_ne map.entries same

end PlainMap

namespace Dict

variable [SipHasher] {dict : Dict}

theorem insert_clock (dict : Dict) (key : Bytes) (entry : Entry) :
    (dict.insert key entry).clock = dict.clock := by
  unfold insert
  dsimp only
  split
  · exact (sameCounts_modifyEntry _ _ _).clock.trans (sameCounts_makeRoom dict).clock
  · unfold pushSlot
    split <;> exact (sameCounts_makeRoom dict).clock

theorem setDeadline_clock (dict : Dict) (key : Bytes) (expiresAt : Option Nat) :
    (dict.setDeadline key expiresAt).2.clock = dict.clock := by
  unfold setDeadline
  dsimp only
  split
  · rfl
  · exact (sameCounts_modifyEntry _ _ _).clock

theorem remove_clock (dict : Dict) (key : Bytes) : (dict.remove key).2.clock = dict.clock := by
  have removed := (sameCounts_removeSlot _ key).clock.trans (sameCounts_beforeRemove dict).clock
  rcases remove_snd dict key with same | ⟨_, _, same⟩ <;> rw [same] <;> exact removed

/-- The map a dict holds, with the dict's invariant. -/
structure Represents (dict : Dict) (map : PlainMap) : Prop where
  valid : dict.Valid
  entries : ∀ key, dict.get key = map.entries.lookup key
  clock : dict.clock = map.clock

theorem represents_withSeed (seed : DictSeed) :
    Represents (withSeed seed) PlainMap.empty where
  valid := valid_withSeed seed
  entries := by
    intro key
    rw [(valid_withSeed seed).get_eq_lookup, slots_withSeed]
    rfl
  clock := rfl

/-- One operation answers as the map does and leaves what the map leaves. -/
theorem step_represents (dict : Dict) (map : PlainMap) (op : DictOp)
    (represents : Represents dict map) :
    (dict.step op).1 = (map.step op).1 ∧ Represents (dict.step op).2 (map.step op).2 := by
  obtain ⟨valid, entries, clock⟩ := represents
  cases op with
  | insert key entry =>
    obtain ⟨after, looked⟩ := insert_spec valid key entry
    refine ⟨rfl, after, ?_, (insert_clock dict key entry).trans clock⟩
    intro other
    refine (looked other).trans ?_
    by_cases same : other = key
    · rw [if_pos same, same]
      exact (Finmap.lookup_insert map.entries).symm
    · rw [if_neg same, entries]
      exact (Finmap.lookup_insert_of_ne map.entries same).symm
  | remove key =>
    obtain ⟨after, answer, looked⟩ := remove_spec valid key
    refine ⟨congrArg DictAnswer.removed (answer.trans (entries key)), after, ?_,
      (remove_clock dict key).trans clock⟩
    intro other
    refine (looked other).trans ?_
    by_cases same : other = key
    · rw [if_pos same, same]
      exact (Finmap.lookup_erase key map.entries).symm
    · rw [if_neg same, entries]
      exact (Finmap.lookup_erase_ne same).symm
  | setDeadline key expiresAt =>
    obtain ⟨after, answer, looked⟩ := setDeadline_spec valid key expiresAt
    refine ⟨congrArg DictAnswer.found (answer.trans (by rw [entries])), after, ?_, ?_⟩
    · intro other
      refine (looked other).trans ?_
      rw [entries, entries]
      exact (map.lookup_modify key other _).symm
    · exact ((setDeadline_clock dict key expiresAt).trans clock).trans (map.modify_clock key _).symm
  | touch key =>
    obtain ⟨after, looked⟩ := touch_spec valid key
    refine ⟨rfl, after, ?_, ?_⟩
    · intro other
      refine (looked other).trans ?_
      rw [entries, entries, clock]
      exact (map.lookup_modify key other _).symm
    · refine ((sameCounts_modifyEntry _ _ _).clock).trans ?_
      exact congrArg (· + 1) clock
  | rehashStep buckets =>
    refine ⟨rfl, (rehashStep_spec valid buckets).1, ?_,
      (sameCounts_rehashStep dict buckets).clock.trans clock⟩
    intro other
    exact (get_rehashStep valid buckets other).trans (entries other)
  | clear => exact ⟨rfl, represents_withSeed dict.seed⟩

theorem Represents.len_eq_card {map : PlainMap} (represents : Represents dict map) :
    dict.len = map.entries.keys.card := by
  have keys : map.entries.keys = (dict.slots.map Slot.key).toFinset := by
    ext key
    rw [Finmap.mem_keys, ← Finmap.lookup_isSome, ← represents.entries key,
      represents.valid.get_eq_lookup, List.mem_toFinset, List.mem_map]
    constructor
    · intro present
      obtain ⟨entry, found⟩ := Option.isSome_iff_exists.mp present
      obtain ⟨slot, member, same, -⟩ := exists_of_lookup found
      exact ⟨slot, member, same⟩
    · rintro ⟨slot, member, rfl⟩
      rw [lookup_of_mem represents.valid.distinct member]
      rfl
  rw [keys, List.toFinset_card_of_nodup represents.valid.distinct, List.length_map]
  exact represents.valid.counted

/-- Every sequence of operations on a new dict answers as the plain map does,
and ends with the plain map's entries, its size, and no key in two slots. -/
theorem run_refines_plainMap (seed : DictSeed) (ops : List DictOp) :
    ((withSeed seed).run ops).1 = (PlainMap.empty.run ops).1 ∧
      (∀ key, ((withSeed seed).run ops).2.get key =
        (PlainMap.empty.run ops).2.entries.lookup key) ∧
      ((withSeed seed).run ops).2.len =
        (PlainMap.empty.run ops).2.entries.keys.card ∧
      (((withSeed seed).run ops).2.slots.map Slot.key).Nodup := by
  obtain ⟨answers, last⟩ := Machine.run_simulation step_represents
    (represents_withSeed seed) ops
  exact ⟨answers, last.entries, last.len_eq_card, last.valid.distinct⟩

end Dict

end Seedstone
