/-!
# Directories

A `Directory` lists values under keys.  A value that is entered under a key comes behind those that
are there, and one that is entered twice is listed twice.

`Directory.ofItems` goes through items, each of which comes with some keys, and enters the value of
the item under every one of them.  What it comes to is said by `under_ofItems`.
-/

set_option autoImplicit false

namespace Timetable

/-- Values by their keys. -/
structure Directory (κ ν : Type) where
  /-- The keys with what is listed under them, a key that was entered first coming first. -/
  pages : List (κ × List ν) := []

namespace Directory

variable {κ ν α : Type} [DecidableEq κ]

/-- What is listed under a key: nothing, if it was never entered. -/
def under (d : Directory κ ν) (key : κ) : List ν :=
  ((d.pages.find? (·.1 = key)).map (·.2)).getD []

/-- Adds a value to the page of a key, on a page of its own if there is none yet. -/
def addTo (key : κ) (value : ν) : List (κ × List ν) → List (κ × List ν)
  | [] => [(key, [value])]
  | (k, values) :: rest =>
    if k = key then (k, values ++ [value]) :: rest else (k, values) :: addTo key value rest

/-- Lists a value under a key. -/
def enter (d : Directory κ ν) (key : κ) (value : ν) : Directory κ ν := ⟨addTo key value d.pages⟩

/-- Lists a value under several keys, one after the other. -/
def enterAll (d : Directory κ ν) (keys : List κ) (value : ν) : Directory κ ν :=
  keys.foldl (fun d key => d.enter key value) d

/-- Lists the values of items under their keys, item by item. -/
def ofItems (keys : α → List κ) (value : α → ν) (items : List α) : Directory κ ν :=
  items.foldl (fun d x => d.enterAll (keys x) (value x)) {}

@[simp] theorem under_empty (key : κ) : ({} : Directory κ ν).under key = [] := rfl

/-- **A value that is entered comes last under its key, and other keys have what they had.** -/
theorem under_enter (d : Directory κ ν) (key key' : κ) (value : ν) :
    (d.enter key value).under key' =
      if key = key' then d.under key' ++ [value] else d.under key' := by
  obtain ⟨pages⟩ := d
  simp only [under, enter]
  induction pages with
  | nil => by_cases h : key = key' <;> simp [addTo, h]
  | cons page rest ih =>
    obtain ⟨k, values⟩ := page
    rw [addTo]
    split
    · next hk =>
      subst hk
      by_cases h : k = key' <;> simp [h]
    · next hk =>
      by_cases h : k = key'
      · subst h
        simp [Ne.symm hk]
      · simp only [List.find?_cons, h, decide_false, ih]

/-- A value is listed as often as the key is among those it is entered under. -/
theorem under_enterAll (d : Directory κ ν) (keys : List κ) (key : κ) (value : ν) :
    (d.enterAll keys value).under key =
      d.under key ++ List.replicate (keys.count key) value := by
  induction keys generalizing d with
  | nil => simp [enterAll]
  | cons k keys ih =>
    have hstep : d.enterAll (k :: keys) value = (d.enter k value).enterAll keys value := rfl
    rw [hstep, ih, under_enter, List.count_cons]
    by_cases h : k = key <;> simp [h, List.replicate_succ]

/-- **Under a key the values of the items are listed in their order, each as often as the key is
among the keys of its item.** -/
theorem under_ofItems (keys : α → List κ) (value : α → ν) (items : List α) (key : κ) :
    (ofItems keys value items).under key =
      items.flatMap fun x => List.replicate ((keys x).count key) (value x) := by
  suffices h : ∀ d : Directory κ ν,
      (items.foldl (fun d x => d.enterAll (keys x) (value x)) d).under key =
        d.under key ++ items.flatMap fun x => List.replicate ((keys x).count key) (value x) from
    h {}
  intro d
  induction items generalizing d with
  | nil => simp
  | cons x items ih => rw [List.foldl_cons, ih, under_enterAll, List.flatMap_cons, List.append_assoc]

end Directory

end Timetable
