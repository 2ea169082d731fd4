import LteTrigger.Stream

/-!
# The functions of GNU Radio

The blocks build and read messages with functions of `pmt`, and look for tags with
`get_tags_in_window`. The code of these functions is not in the repository, so they are a parameter
of the model, together with what the blocks rely on. The keys of dictionaries are symbols
throughout.

`GnuRadio.plain` are functions that do what the blocks rely on, with dictionaries as association
lists. It is what runs on concrete inputs use.

## Main definitions

* `GnuRadio`: the functions, and what they are known to do;
* `GnuRadio.plain`: an instance.
-/

namespace LteTrigger

/-- The functions of GNU Radio that the blocks call. -/
class GnuRadio where
  /-- `pmt::to_long`. -/
  toLong : Pmt → Except Exception ℤ
  /-- `pmt::make_dict`. -/
  makeDict : Pmt
  /-- `pmt::dict_add`. -/
  dictAdd (dict key value : Pmt) : Pmt
  /-- `pmt::dict_ref`. -/
  dictRef (dict key notFound : Pmt) : Pmt
  /-- `get_tags_in_window(v, 0, 0, 1, key)`: what it leaves in `v` when the first sample has the
  given tags. -/
  getTagsInWindow (tags : List Tag) (key : String) : List Tag
  /-- The integer in a value is read back. -/
  toLong_fromLong (n : ℤ) : toLong (.fromLong n) = .ok n
  /-- What is added under a key is found under it. -/
  dictRef_dictAdd_self (dict value notFound : Pmt) (name : String) :
    dictRef (dictAdd dict (.intern name) value) (.intern name) notFound = value
  /-- What is added under a key does not change what is found under others. -/
  dictRef_dictAdd_of_ne (dict value notFound : Pmt) {name name' : String} (hne : name ≠ name') :
    dictRef (dictAdd dict (.intern name') value) (.intern name) notFound =
      dictRef dict (.intern name) notFound
  /-- A dictionary to which something was added is not `PMT_NIL`. -/
  dictAdd_ne_nil (dict key value : Pmt) : dictAdd dict key value ≠ .nil
  /-- Tags are found one by one, in the order they were put on. -/
  getTagsInWindow_append (tags tags' : List Tag) (key : String) :
    getTagsInWindow (tags ++ tags') key = getTagsInWindow tags key ++ getTagsInWindow tags' key
  /-- A tag is found under its key. -/
  getTagsInWindow_self (tag : Tag) : getTagsInWindow [tag] tag.key = [tag]
  /-- A tag is not found under another key. -/
  getTagsInWindow_of_ne {tag : Tag} {key : String} (hne : tag.key ≠ key) :
    getTagsInWindow [tag] key = []

export GnuRadio (toLong makeDict dictAdd dictRef getTagsInWindow toLong_fromLong
  dictRef_dictAdd_self dictRef_dictAdd_of_ne dictAdd_ne_nil getTagsInWindow_append
  getTagsInWindow_self getTagsInWindow_of_ne)

attribute [simp] GnuRadio.toLong_fromLong GnuRadio.dictRef_dictAdd_self
  GnuRadio.getTagsInWindow_append

section Tags

variable [GnuRadio]

/-- Where there are no tags none are found. -/
@[simp]
theorem getTagsInWindow_nil (key : String) : getTagsInWindow [] key = [] := by
  have happend := getTagsInWindow_append [] [] key
  exact List.self_eq_append_right.mp happend

/-- The first tag is found if it has the key. -/
theorem getTagsInWindow_cons (tag : Tag) (tags : List Tag) (key : String) :
    getTagsInWindow (tag :: tags) key =
      (if tag.key = key then [tag] else []) ++ getTagsInWindow tags key := by
  rw [← List.singleton_append, getTagsInWindow_append]
  congr 1
  split
  · rename_i hkey
    rw [← hkey, getTagsInWindow_self]
  · rename_i hkey
    exact getTagsInWindow_of_ne hkey

/-- The tags that are found are those with the key. -/
theorem getTagsInWindow_eq_filter (tags : List Tag) (key : String) :
    getTagsInWindow tags key = tags.filter (·.key = key) := by
  induction tags with
  | nil => exact getTagsInWindow_nil key
  | cons tag tags ih =>
    rw [getTagsInWindow_cons, ih]
    by_cases hkey : tag.key = key <;> simp [hkey]

/-- Tags under other keys are not seen. -/
theorem getTagsInWindow_eq_nil {tags : List Tag} {key : String}
    (h : ∀ tag ∈ tags, tag.key ≠ key) : getTagsInWindow tags key = [] := by
  simpa [getTagsInWindow_eq_filter, List.filter_eq_nil_iff] using h

end Tags

/-! ### Association lists -/

namespace Pmt

/-- The first pair of an association list whose key is `key`, or `PMT_F`. -/
def assv (key : Pmt) : Pmt → Pmt
  | .pair (.pair k v) rest => if key = k then .pair k v else assv key rest
  | _ => .bool false

/-- An association list without its first entry for `key`. -/
def assvDelete (key : Pmt) : Pmt → Pmt
  | .pair (.pair k v) rest => if k = key then rest else .pair (.pair k v) (assvDelete key rest)
  | dict => dict

/-- The value stored under `key`, or `notFound`. -/
def assvRef (dict key notFound : Pmt) : Pmt :=
  match assv key dict with
  | .pair _ v => v
  | _ => notFound

/-- An association list with `value` stored under `key`, in front of the other entries. -/
def assvAdd (dict key value : Pmt) : Pmt :=
  match assv key dict with
  | .pair _ _ => .pair (.pair key value) (assvDelete key dict)
  | _ => .pair (.pair key value) dict

/-- The key added last is found first. -/
theorem assvRef_assvAdd_self (dict key value notFound : Pmt) :
    assvRef (assvAdd dict key value) key notFound = value := by
  unfold assvAdd
  split <;> simp [assvRef, assv]

/-- Deleting one key leaves the entries of the others. -/
theorem assv_assvDelete_of_ne {key key' : Pmt} (hne : key ≠ key') (dict : Pmt) :
    assv key (assvDelete key' dict) = assv key dict := by
  induction dict using assvDelete.induct key' with
  | case1 v rest =>
    simp only [assvDelete, ↓reduceIte]
    rw [assv, if_neg hne]
  | case2 k v rest hk ih =>
    rw [assvDelete, if_neg hk, assv, assv, ih]
  | case3 dict hdict =>
    rw [assvDelete]
    exact hdict

/-- Adding one key leaves the entries of the others. -/
theorem assvRef_assvAdd_of_ne {key key' : Pmt} (hne : key ≠ key') (dict value notFound : Pmt) :
    assvRef (assvAdd dict key' value) key notFound = assvRef dict key notFound := by
  have hassv : assv key (assvAdd dict key' value) = assv key dict := by
    unfold assvAdd
    split
    · rw [assv, if_neg hne, assv_assvDelete_of_ne hne]
    · rw [assv, if_neg hne]
  rw [assvRef, assvRef, hassv]

/-- An association list with an entry is not `PMT_NIL`. -/
theorem assvAdd_ne_nil (dict key value : Pmt) : assvAdd dict key value ≠ .nil := by
  unfold assvAdd
  split <;> simp

end Pmt

/-- Dictionaries are association lists, and tags are found by looking at each. -/
instance GnuRadio.plain : GnuRadio where
  toLong
    | .integer n => .ok n
    | _ => .error (.wrongType "pmt_to_long")
  makeDict := .nil
  dictAdd := Pmt.assvAdd
  dictRef := Pmt.assvRef
  getTagsInWindow tags key := tags.filter (·.key = key)
  toLong_fromLong _ := rfl
  dictRef_dictAdd_self _ _ _ _ := Pmt.assvRef_assvAdd_self _ _ _ _
  dictRef_dictAdd_of_ne _ _ _ _ _ hne :=
    Pmt.assvRef_assvAdd_of_ne (fun h => hne (Pmt.symbol.inj h)) _ _ _
  dictAdd_ne_nil := Pmt.assvAdd_ne_nil
  getTagsInWindow_append _ _ _ := List.filter_append _ _
  getTagsInWindow_self _ := List.filter_cons_of_pos (decide_eq_true rfl)
  getTagsInWindow_of_ne hne := List.filter_cons_of_neg fun h => hne (of_decide_eq_true h)

end LteTrigger
