import Mathlib.Data.List.Perm.Basic
import Mathlib.Data.List.Sort
import CredBroker.Python.RoundTrip

/-!
# The canonical serialisation

`json.dumps(value, sort_keys=True, separators=(",", ":"))` forgets the order of
the keys of each dict and nothing else: it is the compact serialisation of the
value with sorted members, which can be read back.
-/

namespace Python

namespace Json

/-! ## Equality up to the order of keys -/

mutual

/-- Equal up to the order of the members of each object. -/
inductive Same : Json → Json → Prop
  | null : Same .null .null
  | bool (b : Bool) : Same (.bool b) (.bool b)
  | int (n : Int) : Same (.int n) (.int n)
  | float (printed : FloatText) : Same (.float printed) (.float printed)
  | str (s : Str) : Same (.str s) (.str s)
  | arr {items items' : List Json} (same : SameItems items items') : Same (.arr items) (.arr items')
  | obj {members reordered members' : List (Str × Json)} (perm : members.Perm reordered)
      (same : SameMembers reordered members') : Same (.obj members) (.obj members')

inductive SameItems : List Json → List Json → Prop
  | nil : SameItems [] []
  | cons {value value' : Json} {items items' : List Json} (first : Same value value')
      (others : SameItems items items') : SameItems (value :: items) (value' :: items')

inductive SameMembers : List (Str × Json) → List (Str × Json) → Prop
  | nil : SameMembers [] []
  | cons (key : Str) {value value' : Json} {members members' : List (Str × Json)}
      (first : Same value value') (others : SameMembers members members') :
      SameMembers ((key, value) :: members) ((key, value') :: members')

end

/-! ## Sorted values -/

/-- Members in the order of their keys. -/
def sortKeys (members : List (Str × Json)) : List (Str × Json) :=
  members.mergeSort fun a b => a.1.le b.1

mutual

/-- The value with the members of each object in the order of their keys. -/
def sorted : Json → Json
  | .arr items => .arr (sortedItems items)
  | .obj members => .obj (sortKeys (sortedMembers members))
  | value => value

def sortedItems : List Json → List Json
  | [] => []
  | value :: items => sorted value :: sortedItems items

/-- The values sorted, each in its place. -/
def sortedMembers : List (Str × Json) → List (Str × Json)
  | [] => []
  | (key, value) :: members => (key, sorted value) :: sortedMembers members

end

theorem sortedMembers_eq (members : List (Str × Json)) :
    sortedMembers members = members.map fun m => (m.1, sorted m.2) := by
  induction members with
  | nil => rfl
  | cons member members ih => exact congrArg (_ :: ·) ih

theorem sortedMembers_keys (members : List (Str × Json)) :
    (sortedMembers members).map (·.1) = members.map (·.1) := by
  rw [sortedMembers_eq, List.map_map]
  rfl

/-- Sorting the keys loses no member. -/
theorem sortKeys_perm (members : List (Str × Json)) : (sortKeys members).Perm members :=
  List.mergeSort_perm members _

/-- It puts them in order. -/
theorem sortKeys_pairwise (members : List (Str × Json)) :
    (sortKeys members).Pairwise fun a b => a.1.le b.1 = true := by
  refine List.pairwise_mergeSort (fun a b c ab bc => ?_) (fun a b => ?_) members
  · exact decide_eq_true (List.le_trans (of_decide_eq_true ab) (of_decide_eq_true bc))
  · rw [Bool.or_eq_true_iff]
    exact (List.le_total a.1 b.1).imp decide_eq_true decide_eq_true

/-- Distinct keys have one order. -/
theorem sortKeys_congr {members members' : List (Str × Json)} (perm : members.Perm members')
    (distinct : (members.map (·.1)).Nodup) : sortKeys members = sortKeys members' := by
  have here := (sortKeys_perm members).trans (perm.trans (sortKeys_perm members').symm)
  refine List.Perm.eq_of_pairwise (fun a b ha hb ab ba => ?_) (sortKeys_pairwise members)
    (sortKeys_pairwise members') here
  have ha := (sortKeys_perm members).subset ha
  have hb := ((sortKeys_perm members').trans perm.symm).subset hb
  exact List.inj_on_of_nodup_map distinct ha hb
    (List.le_antisymm (of_decide_eq_true ab) (of_decide_eq_true ba))

/-! ## Sorting serialised members -/

theorem dumpValues_eq (style : Style) (members : List (Str × Json)) :
    dumpValues style members = members.map fun m => (m.1, dumps style m.2) := by
  induction members with
  | nil => rfl
  | cons member members ih => exact congrArg (_ :: ·) ih

/-- Members may be sorted before or after their values are printed. -/
theorem sortMembers_dumpValues (style : Style) (members : List (Str × Json)) :
    sortMembers (dumpValues style members) = dumpValues style (sortKeys members) := by
  rw [dumpValues_eq, dumpValues_eq]
  refine (List.map_mergeSort ?_).symm
  exact fun _ _ _ _ => rfl

mutual

/-- The canonical text is that of the sorted value. -/
theorem dumps_canonical (value : Json) :
    dumps .canonical value = dumps (.spaced []) (sorted value) := by
  cases value with
  | null | int | float | str => rfl
  | bool b => cases b <;> rfl
  | arr items =>
    show '[' :: List.intercalate _ (dumpItems .canonical items) ++ [']'] = _
    rw [dumpItems_canonical items]
    rfl
  | obj members =>
    show '{' :: List.intercalate _ ((sortMembers (dumpValues .canonical members)).map _) ++
      ['}'] = _
    rw [dumpValues_canonical members, sortMembers_dumpValues]
    rfl
termination_by sizeOf value

theorem dumpItems_canonical (items : List Json) :
    dumpItems .canonical items = dumpItems (.spaced []) (sortedItems items) := by
  cases items with
  | nil => rfl
  | cons value items =>
    show dumps .canonical value :: dumpItems .canonical items = _
    rw [dumps_canonical value, dumpItems_canonical items]
    rfl
termination_by sizeOf items

theorem dumpValues_canonical (members : List (Str × Json)) :
    dumpValues .canonical members = dumpValues (.spaced []) (sortedMembers members) := by
  cases members with
  | nil => rfl
  | cons member members =>
    cases member with
    | mk key value =>
      show (key, dumps .canonical value) :: dumpValues .canonical members = _
      rw [dumps_canonical value, dumpValues_canonical members]
      rfl
termination_by sizeOf members

end

/-! ## Values of Python -/

/-- The float that is printed so. -/
def asPrinted (text : Str) : FloatText :=
  if is : isFloatText text = true then ⟨text, is⟩ else .nan

/-- The keys of each dict of the value are distinct. -/
abbrev IsValue (value : Json) : Prop := WellFormed asPrinted value

theorem wellFormedMembers_iff {floatRepr : Str → FloatText} {members : List (Str × Json)} :
    WellFormedMembers floatRepr members ↔ ∀ m ∈ members, WellFormed floatRepr m.2 := by
  induction members with
  | nil => exact iff_of_true trivial nofun
  | cons member members ih =>
    rw [List.forall_mem_cons, ← ih]
    exact Iff.rfl

mutual

/-- A sorted value is one that can be read back. -/
theorem isValue_sorted (value : Json) (is : IsValue value) : IsValue (sorted value) := by
  cases value with
  | null | bool | int | float | str => exact is
  | arr items => exact isValue_sortedItems items is
  | obj members =>
    have keys := (sortKeys_perm (sortedMembers members)).map (·.1)
    have values := isValue_sortedMembers members is.2
    refine ⟨keys.nodup_iff.mpr (sortedMembers_keys members ▸ is.1), ?_⟩
    rw [wellFormedMembers_iff] at values ⊢
    exact fun m member => values m ((sortKeys_perm _).subset member)
termination_by sizeOf value

theorem isValue_sortedItems (items : List Json) (is : WellFormedItems asPrinted items) :
    WellFormedItems asPrinted (sortedItems items) := by
  cases items with
  | nil => trivial
  | cons value items => exact ⟨isValue_sorted value is.1, isValue_sortedItems items is.2⟩
termination_by sizeOf items

theorem isValue_sortedMembers (members : List (Str × Json))
    (is : WellFormedMembers asPrinted members) :
    WellFormedMembers asPrinted (sortedMembers members) := by
  cases members with
  | nil => trivial
  | cons member members =>
    cases member with
    | mk key value => exact ⟨isValue_sorted value is.1, isValue_sortedMembers members is.2⟩
termination_by sizeOf members

end

/-! ## One text for the values that are the same -/

mutual

/-- Values that are the same are sorted to one. -/
theorem Same.sorted_eq {value value' : Json} (same : Same value value') (is : IsValue value) :
    sorted value = sorted value' := by
  cases same with
  | null | bool | int | float | str => rfl
  | arr same => exact congrArg Json.arr (same.sorted_eq is)
  | obj perm same =>
    have values := wellFormedMembers_iff.mpr fun m member =>
      wellFormedMembers_iff.mp is.2 m (perm.symm.subset member)
    have reordered := perm.map fun m => (m.1, sorted m.2)
    rw [← sortedMembers_eq, ← sortedMembers_eq] at reordered
    have distinct := (sortedMembers_keys _).symm ▸ is.1
    exact congrArg Json.obj ((sortKeys_congr reordered distinct).trans
      (congrArg sortKeys (same.sorted_eq values)))

theorem SameItems.sorted_eq {items items' : List Json} (same : SameItems items items')
    (is : WellFormedItems asPrinted items) : sortedItems items = sortedItems items' := by
  cases same with
  | nil => rfl
  | cons first others =>
    exact congrArg₂ List.cons (first.sorted_eq is.1) (others.sorted_eq is.2)

theorem SameMembers.sorted_eq {members members' : List (Str × Json)}
    (same : SameMembers members members') (is : WellFormedMembers asPrinted members) :
    sortedMembers members = sortedMembers members' := by
  cases same with
  | nil => rfl
  | cons key first others =>
    exact congrArg₂ List.cons (congrArg (key, ·) (first.sorted_eq is.1)) (others.sorted_eq is.2)

end

/-- Whatever is sorted to the same value as this one is the same. -/
def SortedApart (value : Json) : Prop := ∀ value', sorted value = sorted value' → Same value value'

theorem sameItems_of {items items' : List Json} (apart : ∀ value ∈ items, SortedApart value)
    (same : sortedItems items = sortedItems items') : SameItems items items' := by
  induction items generalizing items' with
  | nil =>
    cases items' with
    | nil => exact .nil
    | cons value items' => cases same
  | cons value items ih =>
    cases items' with
    | nil => cases same
    | cons value' items' =>
      obtain ⟨first, others⟩ := List.cons.inj same
      exact .cons (apart value List.mem_cons_self _ first)
        (ih (fun value member => apart value (List.mem_cons_of_mem _ member)) others)

theorem sameMembers_of {members members' : List (Str × Json)}
    (apart : ∀ m ∈ members, SortedApart m.2)
    (same : sortedMembers members = sortedMembers members') : SameMembers members members' := by
  induction members generalizing members' with
  | nil =>
    cases members' with
    | nil => exact .nil
    | cons member members' => cases same
  | cons member members ih =>
    cases members' with
    | nil => cases same
    | cons member' members' =>
      obtain ⟨key, value⟩ := member
      obtain ⟨key', value'⟩ := member'
      obtain ⟨first, others⟩ := List.cons.inj same
      obtain ⟨rfl, sorted⟩ := Prod.mk.inj first
      exact .cons key (apart (key, value) List.mem_cons_self _ sorted)
        (ih (fun m member => apart m (List.mem_cons_of_mem _ member)) others)

/-- Values that are sorted to one are the same. -/
theorem sortedApart (value : Json) : SortedApart value := by
  induction size : sizeOf value using Nat.strongRecOn generalizing value with
  | _ n ih =>
    intro value' same
    cases value with
    | null | bool | int | float | str =>
      cases value' with
      | null | bool | int | float | str => cases same <;> constructor
      | arr | obj => cases same
    | arr items =>
      cases value' with
      | null | bool | int | float | str | obj => cases same
      | arr items' =>
        refine .arr (sameItems_of (fun value member => ?_) (Json.arr.inj same))
        have smaller := List.sizeOf_lt_of_mem member
        rw [Json.arr.sizeOf_spec] at size
        exact ih (sizeOf value) (by omega) value rfl
    | obj members =>
      cases value' with
      | null | bool | int | float | str | arr => cases same
      | obj members' =>
        -- the members that are sorted to those of `value'` as they come
        have perm : (sortedMembers members').Perm (sortedMembers members) :=
          (sortKeys_perm _).symm.trans (Json.obj.inj same ▸ sortKeys_perm _)
        rw [sortedMembers_eq members] at perm
        have found := List.eq_map_comp_perm (fun m : Str × Json => (m.1, sorted m.2))
        obtain ⟨reordered, is, perm⟩ := (congrFun₂ found _ _).mpr perm
        refine .obj perm.symm (sameMembers_of (fun m member => ?_) ?_)
        · have smaller := List.sizeOf_lt_of_mem (perm.subset member)
          obtain ⟨key, value⟩ := m
          rw [Json.obj.sizeOf_spec] at size
          rw [Prod.mk.sizeOf_spec] at smaller
          exact ih (sizeOf value) (by omega) value rfl
        · rw [is, sortedMembers_eq]

/-- The canonical serialisation of two values is one text exactly where they are the same. -/
theorem dumps_canonical_eq_iff {value value' : Json} (is : IsValue value) (is' : IsValue value') :
    dumps .canonical value = dumps .canonical value' ↔ Same value value' := by
  rw [dumps_canonical, dumps_canonical]
  constructor
  · intro same
    have blank : ∀ c ∈ ([] : Str), c = ' ' := fun _ member => (List.not_mem_nil member).elim
    have read := loads_dumps_spaced blank (isValue_sorted value is)
    rw [same, loads_dumps_spaced blank (isValue_sorted value' is')] at read
    exact sortedApart value value' (Option.some.inj read).symm
  · exact fun same => congrArg _ (same.sorted_eq is)

end Json

end Python
