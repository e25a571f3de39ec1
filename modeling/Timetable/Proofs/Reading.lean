import Timetable.Program.Reading
import Timetable.Proofs.Outcome

/-!
# What is read fits machine words

The numbers in a description are kept in words of 32 bits, and what cannot be kept is not read.

* `Json.Decoder.Yields`: all values that a decoder gives have a property.  Decoders are put together
  field by field, and so are their properties: `Json.Record.Yields.seq` and its like.
* `ProgramRecord.FitsWords`: numbers of rooms and periods, and class sizes, fit 32 bits.
* `ProgramRecord.fitsWords_of_parse`: those of a description that was read do.
-/

set_option autoImplicit false

namespace Timetable

namespace Json

variable {α β : Type} {P : α → Prop} {Q : β → Prop}

/-! ## Decoders -/

namespace Decoder

/-- All values that are decoded have a property. -/
def Yields (d : Decoder α) (P : α → Prop) : Prop := ∀ v a, d.decode v = some a → P a

theorem yields_nat (bits : Nat) : (nat bits).Yields (· < wordSize bits) := by
  intro v k h
  simp only [nat, single] at h
  split at h
  · split at h
    · split at h
      · next hlt =>
        cases h
        exact hlt
      · cases h
    · cases h
  · cases h

theorem Yields.map {d : Decoder α} {f : α → β} (h : d.Yields P) (hf : ∀ a, P a → Q (f a)) :
    (f <$> d).Yields Q := by
  intro v b hb
  obtain ⟨a, ha, rfl⟩ := Option.map_eq_some_iff.1 hb
  exact hf a (h v a ha)

/-- What holds of single values holds of all members of a list. -/
theorem Yields.mapM {d : Decoder α} (h : d.Yields P) {items : List Json} {as : List α}
    (has : items.mapM d.decode = some as) : ∀ a ∈ as, P a := by
  induction items generalizing as with
  | nil =>
    cases has
    exact nofun
  | cons v items ih =>
    rw [List.mapM_cons] at has
    obtain ⟨a, ha, has⟩ := Option.bind_eq_some_iff.1 has
    obtain ⟨rest, hrest, has⟩ := Option.bind_eq_some_iff.1 has
    cases has
    exact List.forall_mem_cons.2 ⟨h v a ha, ih hrest⟩

theorem Yields.list {d : Decoder α} (h : d.Yields P) : (list d).Yields fun as => ∀ a ∈ as, P a := by
  intro v as has
  simp only [Decoder.list] at has
  split at has
  · exact h.mapM has
  · cases has

end Decoder

/-! ## Records -/

namespace Record

/-- All values that are made of fields have a property. -/
def Yields (r : Record α) (P : α → Prop) : Prop := ∀ fields a, r.make fields = some a → P a

theorem yields_true (r : Record α) : r.Yields fun _ => True := fun _ _ _ => trivial

theorem yields_required {d : Decoder α} (name : String) (h : d.Yields P) :
    (required name d).Yields P := by
  intro fields a ha
  simp only [required] at ha
  cases hv : fields.find? name with
  | none =>
    rw [hv] at ha
    cases ha
  | some v =>
    rw [hv] at ha
    exact h v a ha

theorem yields_optional {d : Decoder α} {fallback : α} (name : String) (h : d.Yields P)
    (hfallback : P fallback) : (optional name d fallback).Yields P := by
  intro fields a ha
  simp only [optional] at ha
  cases hv : fields.find? name with
  | none =>
    rw [hv] at ha
    cases ha
    exact hfallback
  | some v =>
    rw [hv] at ha
    exact h v a ha

theorem Yields.map {r : Record α} {f : α → β} (h : r.Yields P) (hf : ∀ a, P a → Q (f a)) :
    (f <$> r).Yields Q := by
  intro fields b hb
  have hb : (r.make fields).map f = some b := hb
  obtain ⟨a, ha, rfl⟩ := Option.map_eq_some_iff.1 hb
  exact hf a (h fields a ha)

/-- A field that matters for the property. -/
theorem Yields.seq {r : Record (α → β)} {s : Record α} (hr : r.Yields fun f => ∀ a, P a → Q (f a))
    (hs : s.Yields P) : (r <*> s).Yields Q := by
  intro fields b hb
  obtain ⟨f, hf, hb⟩ := Option.bind_eq_some_iff.1 hb
  obtain ⟨a, ha, rfl⟩ := Option.map_eq_some_iff.1 hb
  exact hr fields f hf a (hs fields a ha)

/-- A field that does not matter for the property. -/
theorem Yields.skip {r : Record (α → β)} (hr : r.Yields fun f => ∀ a, Q (f a)) (s : Record α) :
    (r <*> s).Yields Q :=
  .seq (P := fun _ => True) (fun fields f hf a _ => hr fields f hf a) s.yields_true

theorem Yields.decoder {r : Record α} (h : r.Yields P) : r.decoder.Yields P := by
  intro v a ha
  obtain ⟨fields, -, ha⟩ := Option.bind_eq_some_iff.1 ha
  exact h fields a ha

end Record

end Json

open Json (Decoder Record)

/-! ## Descriptions -/

theorem Id.yields_decoder {k : Kind} :
    (Id.decoder (k := k)).Yields fun id => id.val < wordSize 32 :=
  (Decoder.yields_nat 32).map fun _ h => h

theorem Room.yields_decoder : Room.decoder.Yields fun x => x.id.val < wordSize 32 := by
  refine Record.Yields.decoder ?_
  iterate 6 refine Record.Yields.skip ?_ _
  exact (Record.yields_required "id" Id.yields_decoder).map fun _ h _ _ _ _ _ _ => h

theorem PeriodRecord.yields_decoder :
    PeriodRecord.decoder.Yields fun q => q.id.val < wordSize 32 := by
  refine Record.Yields.decoder ?_
  iterate 4 refine Record.Yields.skip ?_ _
  exact (Record.yields_required "id" Id.yields_decoder).map fun _ h _ _ _ _ => h

theorem BlockRecord.yields_decoder :
    BlockRecord.decoder.Yields fun b => ∀ q ∈ b.periods, q.id.val < wordSize 32 := by
  refine Record.Yields.decoder ?_
  refine .seq ?_ (Record.yields_required "periods" PeriodRecord.yields_decoder.list)
  refine Record.Yields.skip ?_ _
  exact (Record.yields_true _).map fun _ _ _ _ h => h

theorem Course.yields_decoder : Course.decoder.Yields fun c => c.maxSize < wordSize 32 := by
  refine Record.Yields.decoder ?_
  iterate 6 refine Record.Yields.skip ?_ _
  refine .seq ?_ (Record.yields_required "max_size" (Decoder.yields_nat 32))
  iterate 2 refine Record.Yields.skip ?_ _
  exact (Record.yields_true _).map fun _ _ _ _ _ h _ _ _ _ _ _ => h

/-- Numbers of rooms and periods, and the sizes of classes, fit words of 32 bits. -/
structure ProgramRecord.FitsWords (r : ProgramRecord) : Prop where
  room_lt : ∀ x ∈ r.rooms, x.id.val < wordSize 32
  period_lt : ∀ b ∈ r.blocks, ∀ q ∈ b.periods, q.id.val < wordSize 32
  maxSize_lt : ∀ c ∈ r.courses, c.maxSize < wordSize 32

theorem ProgramRecord.yields_decoder : ProgramRecord.decoder.Yields FitsWords := by
  refine Record.Yields.decoder ?_
  iterate 3 refine Record.Yields.skip ?_ _
  refine .seq ?_ (Record.yields_optional "time_blocks" BlockRecord.yields_decoder.list nofun)
  refine Record.Yields.skip ?_ _
  refine .seq ?_ (Record.yields_optional "courses" Course.yields_decoder.list nofun)
  refine Record.Yields.skip ?_ _
  refine .seq ?_ (Record.yields_optional "rooms" Room.yields_decoder.list nofun)
  refine Record.Yields.skip ?_ _
  exact (Record.yields_true _).map fun _ _ _ _ hrooms _ _ hcourses _ _ hblocks _ _ _ =>
    ⟨hrooms, hblocks, hcourses⟩

/-- **The numbers of a description that was read fit machine words.** -/
theorem ProgramRecord.fitsWords_of_parse {text : String} {r : ProgramRecord}
    (h : ProgramRecord.decoder.parse text = .ok r) : r.FitsWords := by
  obtain ⟨v, -, h⟩ := bind_eq_ok_iff.1 h
  cases hv : ProgramRecord.decoder.decode v with
  | none =>
    rw [hv] at h
    cases h
  | some r' =>
    rw [hv] at h
    cases h
    exact ProgramRecord.yields_decoder v r hv

end Timetable
