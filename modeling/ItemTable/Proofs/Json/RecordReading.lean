import ItemTable.Proofs.Json.TypedReading
import ItemTable.Proofs.Json.WrittenText

/-!
# Records are read back

A record is written as an object with a member for each of its fields, except for those that are
left out. A `Slot` is a field as it is written, and `RecordReader.Reads` says of a reader that it
makes a record out of any members that show the slots. This is proved once for a single field and
once for one more field, so that each record has nothing to show but what its fields are;
`RecordReader.Reads.restores` then reads the whole object, whose members may stand in any order.
-/
namespace ItemTable

variable {α β : Type}

/-! ## Members by name -/

theorem lookEntry_of_mem {entries : List (String × α)} (h : (entries.map Prod.fst).Nodup)
    {key : String} {a : α} (hmem : (key, a) ∈ entries) : lookEntry key entries = some a := by
  induction entries with
  | nil => cases hmem
  | cons entry rest ih =>
    rw [List.map_cons, List.nodup_cons] at h
    rw [lookEntry]
    obtain rfl | hmem := List.mem_cons.1 hmem
    · rw [if_pos rfl]
    · rw [if_neg fun heq : key = entry.1 => h.1 (heq ▸ List.mem_map_of_mem hmem)]
      exact ih h.2 hmem

theorem lookEntry_eq_none {entries : List (String × α)} {key : String}
    (h : key ∉ entries.map Prod.fst) :
    lookEntry key entries = none := by
  induction entries with
  | nil => rfl
  | cons entry rest ih =>
    rw [List.map_cons, List.mem_cons, not_or] at h
    rw [lookEntry, if_neg h.1, ih h.2]

namespace Json

/-! ## Fields -/

/-- The numbers that 32 signed bits hold. -/
def IsInt32 (n : Int) : Prop := -0x80000000 ≤ n ∧ n ≤ 0x7FFFFFFF

/-- The numbers that 64 signed bits hold. -/
def IsInt64 (n : Int) : Prop := -0x8000000000000000 ≤ n ∧ n ≤ 0x7FFFFFFFFFFFFFFF

namespace Decoder

/-- The document can be written, and the reader gets the value back from it. -/
structure Carries (item : Decoder α) (e : Document) (a : α) : Prop where
  restores : item.Restores e a
  writable : e.Writable

theorem text_carries (s : String) : Decoder.text.Carries (.text s) s := ⟨text_restores s, trivial⟩

theorem boolean_carries (b : Bool) : Decoder.boolean.Carries (.boolean b) b :=
  ⟨boolean_restores b, trivial⟩

theorem Carries.map {item : Decoder α} {e : Document} {a : α} (h : item.Carries e a) (f : α → β) :
    Carries (fun depth d => f <$> item depth d) e (f a) :=
  ⟨h.restores.map f, h.writable⟩

theorem Carries.orNull {item : Decoder α} {e : Document} {a : α} (h : item.Carries e a)
    (hnull : e ≠ .null) :
    item.orNull.Carries e (some a) := by
  refine ⟨fun d hsame depth hdepth => ?_, h.writable⟩
  have hread := h.restores d hsame depth hdepth
  cases d with
  | null =>
    cases e <;> cases hsame
    exact absurd rfl hnull
  | boolean | number | text | halved | list | object | broken => exact map_eq_ok.2 ⟨a, hread, rfl⟩

theorem list_carries {item : Decoder α} (write : α → Document) {as : List α}
    (h : ∀ a ∈ as, item.Carries (write a) a) :
    (Decoder.list item).Carries (.ofList (as.map write)) as := by
  refine ⟨list_restores write fun a ha => (h a ha).restores, Document.writable_list fun d hd => ?_⟩
  obtain ⟨a, ha, rfl⟩ := List.mem_map.1 hd
  exact (h a ha).writable

theorem bindings_carries {item : Decoder α} (write : α → Document) {m : Bindings α}
    (h : ∀ e ∈ m.entries, item.Carries (write e.2) e.2) :
    (Decoder.bindings item).Carries
      (.object (m.entries.map fun e => (some e.1, write e.2)) true) m := by
  refine ⟨bindings_restores write fun e he => (h e he).restores,
    Document.writable_object fun n hn => ?_⟩
  obtain ⟨e, he, rfl⟩ := List.mem_map.1 hn
  exact ⟨⟨e.1, rfl⟩, (h e he).writable⟩

/-- The digits of a number are read as the number. -/
theorem decimalValue_toDigits (n : Nat) : Number.decimalValue (Nat.toDigits 10 n) = n := by
  rw [Number.decimalValue_eq_foldl]
  simp only [Nat.mul_comm _ 10, Number.digitValue]
  rw [← Nat.ofDigitChars_eq_foldl]
  exact Nat.ofDigitChars_toDigits (by decide) (by decide)

/-- Whole numbers that 64 bits hold, with or without a sign, are kept as whole numbers. -/
theorem reading?_ofInt {n : Int} (hlow : -0x8000000000000000 ≤ n)
    (hhigh : n < 0x10000000000000000) :
    Literal.reading? { negative := n < 0, whole := Nat.toDigits 10 n.natAbs } =
      some (.whole n) := by
  have hbound : wordBound = 0x10000000000000000 := rfl
  by_cases hneg : n < 0
  · have hsize : 0 < n.natAbs ∧ n.natAbs ≤ 0x8000000000000000 := by omega
    have hvalue : -(n.natAbs : Int) = n := by omega
    simp only [Literal.reading?, hneg, decide_true, decimalValue_toDigits, List.isEmpty_nil,
      Option.isNone_none, if_true, hsize, and_self, hvalue]
  · have hsize : n.natAbs < wordBound := by omega
    have hvalue : (n.natAbs : Int) = n := by omega
    simp only [Literal.reading?, hneg, decide_false, decimalValue_toDigits, List.isEmpty_nil,
      Option.isNone_none, Bool.false_eq_true, if_false, hsize, and_self, if_true, hvalue]

theorem integer_carries {low high n : Int} {wanted : String} (hrange : low ≤ n ∧ n ≤ high)
    (hlow : -0x8000000000000000 ≤ n) (hhigh : n < 0x10000000000000000) :
    (Decoder.integer low high wanted).Carries (.ofInt n) n := by
  refine ⟨fun d hsame depth _ => ?_, Document.writable_ofInt n⟩
  obtain rfl := (Document.same_iff_eq rfl).1 hsame
  simp only [Document.ofInt, Decoder.integer, reading?_ofInt hlow hhigh, hrange, and_self, if_true]

theorem int32_carries {n : Int} (h : IsInt32 n) : int32.Carries (.ofInt n) n := by
  unfold IsInt32 at h
  exact integer_carries h (by omega) (by omega)

theorem int64_carries {n : Int} (h : IsInt64 n) : int64.Carries (.ofInt n) n := by
  unfold IsInt64 at h
  exact integer_carries h (by omega) (by omega)

theorem size_carries {n : Nat} (h : n < wordBound) : size.Carries (.ofNat n) n := by
  unfold wordBound at h
  have hinteger : (Decoder.integer 0 0xFFFFFFFFFFFFFFFF "usize").Carries (.ofInt n) n :=
    integer_carries (by omega) (by omega) (by omega)
  exact hinteger.map Int.toNat

theorem choice_carries {choices : List (String × α)} {name : String} {a : α}
    (h : lookEntry name choices = some a) : (Decoder.choice choices).Carries (.text name) a := by
  refine ⟨fun d hsame depth _ => ?_, trivial⟩
  obtain rfl := (Document.same_iff_eq rfl).1 hsame
  simp only [Decoder.choice, h]

end Decoder

/-! ## Records -/

/-- A field as it is written: its name, and what is written of it unless it is left out. -/
abbrev Slot := String × Option Document

namespace Slot

/-- The object of the slots that are not left out. -/
def written (slots : List Slot) : Document :=
  .ofPresent (slots.map fun s => Member.optional s.1 s.2)

/-- The members of a written object. -/
def present (slots : List Slot) : List (String × Document) :=
  slots.filterMap fun s => s.2.map fun d => (s.1, d)

theorem written_eq (slots : List Slot) :
    written slots = .object ((present slots).map fun m => (some m.1, m.2)) true := by
  rw [written, Document.ofPresent, List.filterMap_map]
  rfl

theorem mem_present {slots : List Slot} {m : String × Document} :
    m ∈ present slots ↔ (m.1, some m.2) ∈ slots := by
  simp only [present, List.mem_filterMap, Option.map_eq_some_iff]
  constructor
  · rintro ⟨s, hs, d, hd, rfl⟩
    rwa [← hd]
  · intro hs
    exact ⟨_, hs, m.2, rfl, rfl⟩

theorem nodup_present {slots : List Slot} (h : (slots.map Prod.fst).Nodup) :
    ((present slots).map Prod.fst).Nodup := by
  have hsub : ((present slots).map Prod.fst).Sublist (slots.map Prod.fst) := by
    induction slots with
    | nil => exact .slnil
    | cons s slots ih =>
      obtain ⟨name, _ | d⟩ := s
      · exact (ih h.of_cons).cons name
      · exact (ih h.of_cons).cons_cons name
  exact hsub.nodup h

theorem name_notMem_present {slots : List Slot} (h : (slots.map Prod.fst).Nodup) {name : String}
    (hs : (name, none) ∈ slots) : name ∉ (present slots).map Prod.fst := by
  intro hmem
  obtain ⟨m, hm, rfl⟩ := List.mem_map.1 hmem
  have hslot := lookEntry_of_mem h (mem_present.1 hm)
  rw [lookEntry_of_mem h hs] at hslot
  cases hslot

theorem writable_written {slots : List Slot} (h : ∀ s ∈ slots, ∀ d ∈ s.2, d.Writable) :
    (written slots).Writable := by
  rw [written_eq]
  refine Document.writable_object fun m hm => ?_
  obtain ⟨n, hn, rfl⟩ := List.mem_map.1 hm
  exact ⟨⟨n.1, rfl⟩, h _ (mem_present.1 hn) _ rfl⟩

/-- In an object that repeats no name a member is found by its name. -/
theorem member?_eq_lookEntry {entries : List (String × Document)} (h : (entries.map Prod.fst).Nodup)
    (name : String) :
    (Document.object (entries.map fun m => (some m.1, m.2)) true).member? name =
      lookEntry name entries := by
  rw [Document.member?]
  induction entries with
  | nil => rfl
  | cons m rest ih =>
    rw [List.map_cons, List.nodup_cons] at h
    rw [List.map_cons, List.filter_cons, lookEntry]
    split
    · next heq =>
      have hname : m.1 = name := Option.some.inj (eq_of_beq heq)
      have hnone : (rest.map fun m => (some m.1, m.2)).filter (·.1 == some name) = [] := by
        refine List.filter_eq_nil_iff.2 fun n hn hkey => h.1 ?_
        obtain ⟨n', hn', rfl⟩ := List.mem_map.1 hn
        rw [hname, ← Option.some.inj (eq_of_beq hkey)]
        exact List.mem_map_of_mem hn'
      rw [hnone, if_pos hname.symm]
      rfl
    · next hne =>
      rw [if_neg fun heq : name = m.1 => hne (by rw [heq, BEq.rfl])]
      exact ih h.2

/-- What an object shows under the name of a slot. -/
theorem member?_written {slots : List Slot} (h : (slots.map Prod.fst).Nodup) {s : Slot}
    (hs : s ∈ slots) :
    (written slots).member? s.1 = s.2 := by
  rw [written_eq, member?_eq_lookEntry (nodup_present h)]
  obtain ⟨name, _ | d⟩ := s
  · exact lookEntry_eq_none (name_notMem_present h hs)
  · exact lookEntry_of_mem (nodup_present h) (mem_present.2 hs)

end Slot

namespace RecordReader

/-- Members in which a slot is found with what is written of it, or not found if it is left out. -/
def Shows (depth : Nat) (known : List (String × Document)) (s : Slot) : Prop :=
  match s.2 with
  | some e => ∃ d, lookEntry s.1 known = some d ∧ d.Same e ∧ d.nesting < depth
  | none => lookEntry s.1 known = none

/-- The reader's fields are the slots, it lets through what is written of them, and it makes the
record out of any members that show them. -/
structure Reads (r : RecordReader α) (slots : List Slot) (a : α) : Prop where
  checked : List.Forall₂ (fun f s => f.1 = s.1 ∧ ∀ e ∈ s.2, f.2.Carries e ()) r.fields slots
  built : ∀ depth known, (∀ s ∈ slots, Shows depth known s) → r.fromMembers depth known = .ok a

variable {name : String} {value : Decoder α} {missing : Except DecodeError α}
    {short : Option α} {a : α}

theorem field_reads_written {e : Document} (h : value.Carries e a) :
    (field name value missing short).Reads [(name, some e)] a where
  checked := .cons ⟨rfl, fun e' he => by
    cases he
    exact h.map fun _ => ()⟩ .nil
  built depth known hshows := by
    obtain ⟨d, hlook, hsame, hnesting⟩ := hshows _ List.mem_cons_self
    simp only [field, hlook]
    exact h.restores d hsame depth hnesting

theorem field_reads_left_out (h : missing = .ok a) :
    (field name value missing short).Reads [(name, none)] a where
  checked := .cons ⟨rfl, fun _ he => by cases he⟩ .nil
  built depth known hshows := by
    have hlook : lookEntry name known = none := hshows _ List.mem_cons_self
    simp only [field, hlook, h]

theorem required_reads {e : Document} (h : value.Carries e a) :
    (required name value).Reads [(name, some e)] a :=
  field_reads_written h

/-- A field that may be nothing: what is written of it is not null, which would be read as
nothing. -/
theorem orNull_reads {write : α → Document} {x : Option α} {short : Option (Option α)}
    (h : ∀ a ∈ x, value.Carries (write a) a) (hnull : ∀ a, write a ≠ .null) :
    (field name value.orNull (.ok none) short).Reads [(name, x.map write)] x := by
  cases x with
  | none => exact field_reads_left_out rfl
  | some a => exact field_reads_written ((h a rfl).orNull (hnull a))

theorem defaulted_reads {default : α} {e : Option Document} (hwritten : ∀ d ∈ e, value.Carries d a)
    (hleft : e = none → default = a) : (defaulted name value default).Reads [(name, e)] a := by
  cases e with
  | none => exact field_reads_left_out (congrArg Except.ok (hleft rfl))
  | some d => exact field_reads_written (hwritten d rfl)

theorem text_reads (s : Option String) :
    (optional name Decoder.text).Reads [(name, s.map .text)] s :=
  orNull_reads (fun s _ => Decoder.text_carries s) fun _ => Document.noConfusion

theorem flag_reads (b : Option Bool) :
    (optional name Decoder.boolean).Reads [(name, b.map .boolean)] b :=
  orNull_reads (fun b _ => Decoder.boolean_carries b) fun _ => Document.noConfusion

theorem int32_reads {x : Option Int} (h : ∀ n ∈ x, IsInt32 n) :
    (optional name Decoder.int32).Reads [(name, x.map .ofInt)] x :=
  orNull_reads (fun n hn => Decoder.int32_carries (h n hn)) fun _ => Document.noConfusion

theorem int64_reads {x : Option Int} (h : ∀ n ∈ x, IsInt64 n) :
    (optional name Decoder.int64).Reads [(name, x.map .ofInt)] x :=
  orNull_reads (fun n hn => Decoder.int64_carries (h n hn)) fun _ => Document.noConfusion

theorem size_reads {x : Option Nat} (h : ∀ n ∈ x, n < wordBound) :
    (defaulted name Decoder.size.orNull none).Reads [(name, x.map .ofNat)] x :=
  orNull_reads (fun n hn => Decoder.size_carries (h n hn)) fun _ => Document.noConfusion

theorem choice_reads {choices : List (String × α)} {write : α → String}
    (h : ∀ a, lookEntry (write a) choices = some a) (x : Option α) :
    (optional name (Decoder.choice choices)).Reads [(name, (x.map write).map .text)] x := by
  rw [Option.map_map]
  exact orNull_reads (fun a _ => Decoder.choice_carries (h a)) fun _ => Document.noConfusion

theorem Reads.map {r : RecordReader α} {slots : List Slot} (h : r.Reads slots a) (f : α → β) :
    (r.map f).Reads slots (f a) where
  checked := h.checked
  built depth known hshows := map_eq_ok.2 ⟨a, h.built depth known hshows, rfl⟩

theorem Reads.and {r : RecordReader (α → β)} {s : RecordReader α} {slots slots' : List Slot}
    {f : α → β} (h : r.Reads slots f) (h' : s.Reads slots' a) :
    (r.and s).Reads (slots ++ slots') (f a) where
  checked := List.rel_append h.checked h'.checked
  built depth known hshows := by
    have hf := h.built depth known fun s hs => hshows s (List.mem_append_left _ hs)
    have ha := h'.built depth known fun s hs => hshows s (List.mem_append_right _ hs)
    simp only [RecordReader.and, hf, ha]
    rfl

/-- Known members are gathered if no name is repeated and all of them pass their checks. -/
theorem knownMembers_eq_ok {fields : List (String × (Document → Except DecodeError Unit))}
    {members known : List (String × Document)} (hnodup : (members.map Prod.fst).Nodup)
    (hnew : ∀ m ∈ members, lookEntry m.1 known = none)
    (hchecked : ∀ m ∈ members, ∃ check, lookEntry m.1 fields = some check ∧ check m.2 = .ok ()) :
    knownMembers fields true known (members.map fun m => (some m.1, m.2)) =
      .ok (members.reverse ++ known) := by
  induction members generalizing known with
  | nil => rfl
  | cons m members ih =>
    rw [List.map_cons, List.nodup_cons] at hnodup
    rw [List.forall_mem_cons] at hnew hchecked
    obtain ⟨check, hcheck, hm⟩ := hchecked.1
    have hrest : ∀ m' ∈ members, lookEntry m'.1 ((m.1, m.2) :: known) = none := by
      intro m' hm'
      rw [lookEntry, if_neg fun heq : m'.1 = m.1 => hnodup.1 (heq ▸ List.mem_map_of_mem hm')]
      exact hnew.2 m' hm'
    rw [List.map_cons, knownMembers]
    refine bind_eq_ok.2 ⟨m.1, rfl, ?_⟩
    simp only [hcheck, hnew.1, Option.isSome_none, Bool.false_eq_true, if_false]
    refine bind_eq_ok.2 ⟨(), hm, ?_⟩
    rw [List.reverse_cons, List.append_assoc]
    exact ih hnodup.2 hrest hchecked.2

/-- Members of the same values as named ones are named alike. -/
theorem exists_named {ms : List (Label × Document)} {es : List (String × Document)}
    (h : List.Forall₂ Document.SameMember ms (es.map fun m => (some m.1, m.2))) :
    ∃ ds : List (String × Document), ms = ds.map (fun m => (some m.1, m.2)) ∧
      List.Forall₂ (fun m e => m.1 = e.1 ∧ m.2.Same e.2) ds es := by
  induction es generalizing ms with
  | nil =>
    cases h
    exact ⟨[], rfl, .nil⟩
  | cons e es ih =>
    obtain ⟨m, rest, ⟨hname, hsame⟩, hrest, rfl⟩ := List.forall₂_cons_right_iff.1 h
    obtain ⟨ds, rfl, hds⟩ := ih hrest
    exact ⟨(e.1, m.2) :: ds, congrArg (· :: _) (Prod.ext hname rfl), .cons ⟨rfl, hsame⟩ hds⟩

/-- Members that show all slots of a record, and each one once. -/
theorem shows_of_members {slots : List Slot} (hnodup : (slots.map Prod.fst).Nodup)
    {ds es : List (String × Document)} (hes : es.Perm (Slot.present slots))
    (hds : List.Forall₂ (fun m e => m.1 = e.1 ∧ m.2.Same e.2) ds es)
    (hkeys : (ds.map Prod.fst).Nodup) {depth : Nat} (hnesting : ∀ m ∈ ds, m.2.nesting < depth) :
    ∀ s ∈ slots, Shows depth ds.reverse s := by
  obtain ⟨hpartner, hpartner'⟩ := exists_mem_of_forall₂ hds
  have hreverse : (ds.reverse.map Prod.fst).Nodup := by
    rw [List.map_reverse]
    exact List.nodup_reverse.2 hkeys
  rintro ⟨name, _ | e⟩ hs
  · refine lookEntry_eq_none fun hmem => ?_
    obtain ⟨m, hm, rfl⟩ := List.mem_map.1 hmem
    obtain ⟨e, he, hname, -⟩ := hpartner m (List.mem_reverse.1 hm)
    refine Slot.name_notMem_present hnodup hs ?_
    rw [hname]
    exact List.mem_map_of_mem (hes.mem_iff.1 he)
  · obtain ⟨m, hm, hname, hsame⟩ := hpartner' (name, e) (hes.mem_iff.2 (Slot.mem_present.2 hs))
    obtain rfl : m.1 = name := hname
    exact ⟨m.2, lookEntry_of_mem hreverse (List.mem_reverse.2 hm), hsame, hnesting m hm⟩

theorem Reads.writable {r : RecordReader α} {slots : List Slot} (h : r.Reads slots a) :
    (Slot.written slots).Writable := by
  refine Slot.writable_written fun s hs d hd => ?_
  obtain ⟨f, -, -, hcarries⟩ := (exists_mem_of_forall₂ h.checked).2 s hs
  exact (hcarries d hd).writable

/-- A record is read back from every document of the value of its written form. -/
theorem Reads.restores {r : RecordReader α} {slots : List Slot} (h : r.Reads slots a)
    (hnodup : (slots.map Prod.fst).Nodup) (name : String) :
    (r.decoder name).Restores (Slot.written slots) a := by
  intro d hsame depth hdepth
  rw [Slot.written_eq] at hsame
  obtain ⟨ms, ms', rfl, hmembers, hperm⟩ := Document.same_object_iff.1 hsame
  obtain ⟨hone, hinside⟩ := Document.nesting_object_lt_iff.1 hdepth
  obtain ⟨es, rfl, hes⟩ := exists_map_of_perm_map hperm
  obtain ⟨ds, rfl, hds⟩ := exists_named hmembers
  have hnesting : ∀ m ∈ ds, m.2.nesting < depth - 1 := fun m hm =>
    hinside _ (List.mem_map_of_mem (f := fun m : String × Document => (some m.1, m.2)) hm)
  have hkeys : (ds.map Prod.fst).Nodup := by
    have heq : ds.map Prod.fst = es.map Prod.fst := by
      rw [← List.forall₂_eq_eq_eq, List.forall₂_map_left_iff, List.forall₂_map_right_iff]
      exact hds.imp fun _ _ h => h.1
    rw [heq, ((hes.map Prod.fst).nodup_iff)]
    exact Slot.nodup_present hnodup
  have hfields : ((r.fields.map fun f => (f.1, f.2 (depth - 1))).map Prod.fst).Nodup := by
    have heq :
        (r.fields.map fun f => (f.1, f.2 (depth - 1))).map Prod.fst = slots.map Prod.fst := by
      rw [List.map_map, ← List.forall₂_eq_eq_eq, List.forall₂_map_left_iff,
        List.forall₂_map_right_iff]
      exact h.checked.imp fun _ _ h => h.1
    rwa [heq]
  have hchecked : ∀ m ∈ ds, ∃ check,
      lookEntry m.1 (r.fields.map fun f => (f.1, f.2 (depth - 1))) = some check ∧
      check m.2 = .ok () := by
    intro m hm
    obtain ⟨e, he, hname, hsame⟩ := (exists_mem_of_forall₂ hds).1 m hm
    obtain ⟨f, hf, hfield, hread⟩ :=
      (exists_mem_of_forall₂ h.checked).2 _ (Slot.mem_present.1 (hes.mem_iff.1 he))
    refine ⟨f.2 (depth - 1), lookEntry_of_mem hfields (List.mem_map.2 ⟨f, hf, ?_⟩),
      (hread e.2 rfl).restores m.2 hsame _ (hnesting m hm)⟩
    rw [hfield, hname]
  have hknown : knownMembers _ true [] (ds.map fun m => (some m.1, m.2)) = .ok (ds.reverse ++ []) :=
    knownMembers_eq_ok hkeys (fun _ _ => rfl) hchecked
  rw [List.append_nil] at hknown
  exact bind_eq_ok.2 ⟨depth - 1, enter_eq_ok.2 ⟨hone, rfl⟩, bind_eq_ok.2 ⟨_, hknown,
    h.built _ _ (shows_of_members hnodup hes hds hkeys hnesting)⟩⟩

theorem Reads.carries {r : RecordReader α} {slots : List Slot} (h : r.Reads slots a)
    (hnodup : (slots.map Prod.fst).Nodup) (name : String) :
    (r.decoder name).Carries (Slot.written slots) a :=
  ⟨h.restores hnodup name, h.writable⟩

end RecordReader

end Json

end ItemTable
