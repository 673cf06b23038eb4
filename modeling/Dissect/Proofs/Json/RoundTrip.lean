import Mathlib
import Dissect.Proofs.Json.Number

/-!
Documents that are written and read back.

What a document says is read from its text whatever stands around it: a text is read escape by
escape up to its closing quote, and a list or an object member by member, with room enough for all
of them. A number that is followed by a comma or a new line ends there. Since a record is written
with each of its fields once, it is read as a whole by reading back each of its values.
-/

namespace Dissect.Json

open Numeral (digits digitLower)

variable {cs rest after : List Char}

/-! ### Texts -/

/-- How a character stands in a quoted text. -/
def textUnit (c : Char) : TextUnit :=
  if c.toNat < 0x20 ∧ ¬(c = '\n' ∨ c = '\r' ∨ c = '\t' ∨ c.toNat = 8 ∨ c.toNat = 12) then
    .unit c.toNat
  else .char c

lemma padded_digits : ∀ n < 32, Numeral.padded 4 (digits 16 digitLower n) =
    ['0', '0', digitLower (n / 16), digitLower (n % 16)] := by decide

lemma unitOf?_digits : ∀ n < 32,
    unitOf? '0' '0' (digitLower (n / 16)) (digitLower (n % 16)) = some n := by decide

/-- Each character is read back from the way it is written. -/
lemma readText_escape (c : Char) (cs : List Char) :
    readText (escape c ++ cs) = (readText cs).map fun p => (textUnit c :: p.1, p.2) := by
  have hmap {u v : TextUnit} (huv : u = v) :
      ((readText cs).bind fun p => some (u :: p.1, p.2)) =
        (readText cs).map fun p => (v :: p.1, p.2) := by
    rw [huv]
    cases readText cs <;> rfl
  unfold escape
  split_ifs with h1 h2 h3 h4 h5 h6 h7 h8
  · obtain rfl := beq_iff_eq.mp h1
    exact hmap rfl
  · obtain rfl := beq_iff_eq.mp h2
    exact hmap rfl
  · obtain rfl := beq_iff_eq.mp h3
    exact hmap rfl
  · obtain rfl := beq_iff_eq.mp h4
    exact hmap rfl
  · obtain rfl := beq_iff_eq.mp h5
    exact hmap rfl
  · obtain rfl : c = Char.ofNat 8 := by rw [← h6, Char.ofNat_toNat]
    exact hmap rfl
  · obtain rfl : c = Char.ofNat 12 := by rw [← h7, Char.ofNat_toNat]
    exact hmap rfl
  · rw [beq_iff_eq] at h3 h4 h5
    have hunit : textUnit c = .unit c.toNat := if_pos ⟨h8, by simp [h3, h4, h5, h6, h7]⟩
    rw [padded_digits _ h8]
    simp only [List.cons_append, List.nil_append, readText, unitOf?_digits _ h8]
    exact hmap hunit.symm
  · rw [beq_iff_eq] at h1 h2
    have hunit : textUnit c = .char c := if_neg fun h => h8 h.1
    have hread : readText (c :: cs) =
        if c == '\\' || c.toNat < 0x20 then none
        else (readText cs).bind fun p => some (.char c :: p.1, p.2) := by
      rw [readText]
      · rfl
      · exact h1
      · exact fun _ _ _ _ _ h => absurd h h2
      · exact fun _ _ h => absurd h h2
    rw [List.singleton_append, hread, if_neg (by simp [h2, Nat.not_lt.mp h8])]
    exact hmap hunit.symm

/-- A quoted text is read up to the quote at its end. -/
lemma readText_flatMap_escape (cs rest : List Char) :
    readText (cs.flatMap escape ++ '"' :: rest) = some (cs.map textUnit, rest) := by
  induction cs with
  | nil => rw [List.flatMap_nil, List.nil_append, readText, List.map_nil]
  | cons c cs ih => rw [List.flatMap_cons, List.append_assoc, readText_escape, ih]; rfl

lemma decodeUnits_map_textUnit (cs : List Char) : decodeUnits (cs.map textUnit) = some cs := by
  induction cs with
  | nil => rfl
  | cons c cs ih =>
    rw [List.map_cons, textUnit]
    split_ifs with h
    · have hlow : ¬(0xDC00 ≤ c.toNat ∧ c.toNat ≤ 0xDFFF) := by omega
      have hhigh : ¬(0xD800 ≤ c.toNat ∧ c.toNat ≤ 0xDBFF) := by omega
      unfold decodeUnits
      rw [if_neg hlow, if_neg hhigh, ih, Option.map_some, Char.ofNat_toNat]
    · rw [decodeUnits, ih]
      rfl

/-- **A text is read as it was written.** -/
lemma textOf?_map_textUnit (s : String) : textOf? (s.toList.map textUnit) = some s := by
  rw [textOf?, decodeUnits_map_textUnit, Option.map_some, String.ofList_toList]

/-! ### Documents -/

mutual

/-- What is read of the text of a document. -/
def source : Json → Source
  | null => .null
  | bool b => .bool b
  | nat n => .number (wordSource n)
  | float x => .number (floatSource x)
  | str s => .text (s.toList.map textUnit)
  | arr items => .array (itemSources items)
  | obj members => .object (memberSources members)

/-- What is read of items. -/
def itemSources : List Json → List Source
  | [] => []
  | item :: items => source item :: itemSources items

/-- What is read of members. -/
def memberSources : List (String × Json) → List (List TextUnit × Source)
  | [] => []
  | m :: members => (m.1.toList.map textUnit, source m.2) :: memberSources members

end

/-- The text of every floating-point number in the document is read as a number. -/
inductive Readable : Json → Prop
  | null : Readable .null
  | bool (b : Bool) : Readable (.bool b)
  | nat (n : ℕ) : Readable (.nat n)
  | float {x : Float}
      (h : readNumber (Decimal.write numberStyle x).toList = some (floatSource x, [])) :
      Readable (.float x)
  | str (s : String) : Readable (.str s)
  | arr {items : List Json} (h : ∀ item ∈ items, Readable item) : Readable (.arr items)
  | obj {members : List (String × Json)} (h : ∀ m ∈ members, Readable m.2) :
      Readable (.obj members)

lemma skipBlanks_newLine (level : ℕ) (cs : List Char) :
    skipBlanks (newLine level ++ cs) = skipBlanks cs := by
  have hblank : ∀ c ∈ newLine level, isBlank c := by
    intro c hc
    rcases List.mem_cons.mp hc with rfl | hc
    · rfl
    · rw [List.eq_of_mem_replicate hc]
      rfl
  rw [skipBlanks, List.dropWhile_append_of_pos hblank]
  rfl

/-- A text that starts a document: no blank, and no closing bracket. -/
def StartsValue (cs : List Char) : Prop :=
  ∃ c cs', cs = c :: cs' ∧ isBlank c = false ∧ c ≠ ']'

lemma startsValue_of_readNumber {n : NumberSource} (h : readNumber cs = some (n, rest)) :
    StartsValue cs := by
  obtain ⟨c, cs', rfl, hc⟩ := exists_head_of_readNumber h
  refine ⟨c, cs', rfl, ?_, ?_⟩
  · by_contra hblank
    rw [Bool.not_eq_false, isBlank] at hblank
    simp only [Bool.or_eq_true, beq_iff_eq] at hblank
    rcases hblank with ((rfl | rfl) | rfl) | rfl <;> exact absurd hc (by decide)
  · rintro rfl
    exact absurd hc (by decide)

lemma startsValue_print {j : Json} (h : Readable j) (level : ℕ) : StartsValue (print level j) := by
  cases h with
  | null => exact ⟨'n', _, rfl, by decide, by decide⟩
  | bool b => cases b <;> exact ⟨_, _, rfl, by decide, by decide⟩
  | nat n => exact startsValue_of_readNumber (readNumber_digits n)
  | float h => exact startsValue_of_readNumber h
  | str s => exact ⟨'"', _, rfl, by decide, by decide⟩
  | @arr items h => cases items <;> exact ⟨'[', _, rfl, by decide, by decide⟩
  | @obj members h => cases members <;> exact ⟨'\x7b', _, rfl, by decide, by decide⟩

lemma StartsValue.skipBlanks_append (h : StartsValue cs) (rest : List Char) :
    skipBlanks (cs ++ rest) = cs ++ rest := by
  obtain ⟨c, cs', rfl, hc, -⟩ := h
  exact skipBlanks_cons hc _

lemma readValue_number {n : NumberSource} (fuel : ℕ) (h : readNumber cs = some (n, rest)) :
    readValue (fuel + 1) cs = some (.number n, rest) := by
  obtain ⟨c, cs', rfl, hc⟩ := exists_head_of_readNumber h
  unfold readValue
  split
  all_goals try
    · next heq =>
      obtain ⟨rfl, -⟩ := List.cons.inj heq
      exact absurd hc (by decide)
  rw [h]
  rfl

lemma endsNumber_newLine (level : ℕ) (cs : List Char) : EndsNumber (newLine level ++ cs) := by
  rintro c ⟨⟩
  decide

lemma endsNumber_comma (cs : List Char) : EndsNumber (',' :: cs) := by
  rintro c ⟨⟩
  decide

/-- The document is read from its text. -/
def ReadsBack (j : Json) : Prop :=
  ∀ level fuel after, (print level j).length ≤ fuel → EndsNumber after →
    readValue fuel (print level j ++ after) = some (source j, after)

lemma readItems_print {item : Json} {items : List Json} (hitem : Readable item ∧ ReadsBack item)
    (hitems : ∀ i ∈ items, Readable i ∧ ReadsBack i) {level k fuel : ℕ} (after : List Char)
    (hfuel : (print level item).length + (printItems level items).length < fuel) :
    readItems fuel (print level item ++ (printItems level items ++
      (newLine k ++ ']' :: after))) = some (source item :: itemSources items, after) := by
  induction items generalizing item fuel with
  | nil =>
    obtain ⟨fuel, rfl⟩ : ∃ f, fuel = f + 1 := ⟨fuel - 1, by omega⟩
    have hvalue := hitem.2 level fuel (newLine k ++ ']' :: after) (by omega)
      (endsNumber_newLine _ _)
    rw [readItems, printItems, List.nil_append, hvalue]
    simp [skipBlanks_newLine, skipBlanks_cons (show isBlank ']' = false by decide), itemSources]
  | cons next items ih =>
    rw [List.forall_mem_cons] at hitems
    obtain ⟨fuel, rfl⟩ : ∃ f, fuel = f + 1 := ⟨fuel - 1, by omega⟩
    have hvalue := hitem.2 level fuel (printItems level (next :: items) ++
      (newLine k ++ ']' :: after)) (by omega) (endsNumber_comma _)
    have hlength : (print level next).length + (printItems level items).length < fuel := by
      simp only [printItems, List.length_cons, List.length_append] at hfuel
      omega
    have hrest := ih hitems.1 hitems.2 hlength
    rw [readItems, hvalue]
    simp only [Option.bind_eq_bind, Option.bind_some, printItems, List.cons_append,
      List.append_assoc, skipBlanks_cons (show isBlank ',' = false by decide), skipBlanks_newLine,
      (startsValue_print hitems.1.1 level).skipBlanks_append, hrest]
    rfl

/-- A name and what stands behind the colon. -/
lemma readText_quoted (name : String) (rest : List Char) :
    ∃ cs, quoted name ++ rest = '"' :: cs ∧
      readText cs = some (name.toList.map textUnit, rest) := by
  refine ⟨name.toList.flatMap escape ++ '"' :: rest, ?_, readText_flatMap_escape _ _⟩
  simp [quoted]

lemma readMembers_print {m : String × Json} {members : List (String × Json)}
    (hm : Readable m.2 ∧ ReadsBack m.2) (hmembers : ∀ m ∈ members, Readable m.2 ∧ ReadsBack m.2)
    {level k fuel : ℕ} (after : List Char)
    (hfuel : (print level m.2).length + (printMembers level members).length < fuel) :
    readMembers fuel (quoted m.1 ++ (": ".toList ++ (print level m.2 ++
      (printMembers level members ++ (newLine k ++ '\x7d' :: after))))) =
        some ((m.1.toList.map textUnit, source m.2) :: memberSources members, after) := by
  have hcolon (cs : List Char) (h : StartsValue cs) (rest : List Char) :
      skipBlanks (": ".toList ++ (cs ++ rest)) = ':' :: ' ' :: (cs ++ rest) ∧
        skipBlanks (' ' :: (cs ++ rest)) = cs ++ rest :=
    ⟨rfl, h.skipBlanks_append rest⟩
  induction members generalizing m fuel with
  | nil =>
    obtain ⟨fuel, rfl⟩ : ∃ f, fuel = f + 1 := ⟨fuel - 1, by omega⟩
    have hvalue := hm.2 level fuel (newLine k ++ '\x7d' :: after) (by omega)
      (endsNumber_newLine _ _)
    obtain ⟨cs, hquoted, htext⟩ := readText_quoted m.1 (": ".toList ++ (print level m.2 ++
      (newLine k ++ '\x7d' :: after)))
    rw [printMembers, List.nil_append, hquoted, readMembers]
    simp only [htext, Option.bind_eq_bind, Option.bind_some,
      (hcolon _ (startsValue_print hm.1 level) _).1, (hcolon _ (startsValue_print hm.1 level) _).2,
      hvalue, skipBlanks_newLine, skipBlanks_cons (show isBlank '\x7d' = false by decide)]
    rfl
  | cons next members ih =>
    rw [List.forall_mem_cons] at hmembers
    obtain ⟨fuel, rfl⟩ : ∃ f, fuel = f + 1 := ⟨fuel - 1, by omega⟩
    have hvalue := hm.2 level fuel (printMembers level (next :: members) ++
      (newLine k ++ '\x7d' :: after)) (by omega) (endsNumber_comma _)
    have hlength : (print level next.2).length + (printMembers level members).length < fuel := by
      simp only [printMembers, List.length_cons, List.length_append] at hfuel
      omega
    have hrest := ih hmembers.1 hmembers.2 hlength
    obtain ⟨cs, hquoted, htext⟩ := readText_quoted m.1 (": ".toList ++ (print level m.2 ++
      (printMembers level (next :: members) ++ (newLine k ++ '\x7d' :: after))))
    have hname : StartsValue (quoted next.1) := ⟨'"', _, rfl, by decide, by decide⟩
    rw [hquoted, readMembers]
    simp only [htext, Option.bind_eq_bind, Option.bind_some,
      (hcolon _ (startsValue_print hm.1 level) _).1, (hcolon _ (startsValue_print hm.1 level) _).2,
      hvalue]
    simp only [printMembers, List.cons_append, List.append_assoc,
      skipBlanks_cons (show isBlank ',' = false by decide), skipBlanks_newLine,
      hname.skipBlanks_append, hrest]
    rfl

lemma StartsValue.ne_nil (h : StartsValue cs) : cs ≠ [] := by
  obtain ⟨c, cs', rfl, -⟩ := h
  simp

/-- A document is not empty, so there is always a first step. -/
lemma readsBack_of_succ {j : Json} (h : Readable j)
    (hread : ∀ level fuel after, (print level j).length ≤ fuel + 1 → EndsNumber after →
      readValue (fuel + 1) (print level j ++ after) = some (source j, after)) : ReadsBack j := by
  intro level fuel after hfuel hafter
  rcases fuel with _ | fuel
  · have hnil := List.eq_nil_of_length_eq_zero (Nat.le_zero.mp hfuel)
    exact absurd hnil (startsValue_print h level).ne_nil
  · exact hread level fuel after hfuel hafter

lemma readsBack_arr {item : Json} {items : List Json} (hitem : Readable item ∧ ReadsBack item)
    (hitems : ∀ i ∈ items, Readable i ∧ ReadsBack i) : ReadsBack (.arr (item :: items)) := by
  have hreadable : Readable (.arr (item :: items)) :=
    .arr (List.forall_mem_cons.mpr ⟨hitem.1, fun i hi => (hitems i hi).1⟩)
  refine readsBack_of_succ hreadable fun level fuel after hfuel _ => ?_
  have hlength : (print (level + 1) item).length + (printItems (level + 1) items).length <
      fuel := by
    simp only [print, newLine, List.length_cons, List.length_append] at hfuel
    omega
  have hread := readItems_print hitem hitems (k := level) after hlength
  have htext : print level (.arr (item :: items)) ++ after = '[' :: (newLine (level + 1) ++
      (print (level + 1) item ++ (printItems (level + 1) items ++ (newLine level ++
        ']' :: after)))) := by
    simp [print]
  have hstart := startsValue_print hitem.1 (level + 1)
  rw [htext, readValue, skipBlanks_newLine, hstart.skipBlanks_append]
  split
  · next heq =>
    obtain ⟨c, cs, hcs, -, hbracket⟩ := hstart
    rw [hcs] at heq
    exact absurd (List.cons.inj heq).1 hbracket
  · rw [hread]
    rfl

lemma readsBack_obj {m : String × Json} {members : List (String × Json)}
    (hm : Readable m.2 ∧ ReadsBack m.2) (hmembers : ∀ m ∈ members, Readable m.2 ∧ ReadsBack m.2) :
    ReadsBack (.obj (m :: members)) := by
  have hreadable : Readable (.obj (m :: members)) :=
    .obj (List.forall_mem_cons.mpr ⟨hm.1, fun m hm => (hmembers m hm).1⟩)
  refine readsBack_of_succ hreadable fun level fuel after hfuel _ => ?_
  have hlength : (print (level + 1) m.2).length + (printMembers (level + 1) members).length <
      fuel := by
    simp only [print, newLine, List.length_cons, List.length_append] at hfuel
    omega
  have hread := readMembers_print hm hmembers (k := level) after hlength
  have htext : print level (.obj (m :: members)) ++ after = '\x7b' :: (newLine (level + 1) ++
      (quoted m.1 ++ (": ".toList ++ (print (level + 1) m.2 ++ (printMembers (level + 1) members ++
        (newLine level ++ '\x7d' :: after)))))) := by
    simp [print]
  have hname : StartsValue (quoted m.1) := ⟨'"', _, rfl, by decide, by decide⟩
  rw [htext, readValue, skipBlanks_newLine, hname.skipBlanks_append]
  split
  · next heq => exact absurd (List.cons.inj heq).1 (by decide)
  · rw [hread]
    rfl

/-- **Every document is read from its text.** -/
lemma Readable.readsBack {j : Json} (h : Readable j) : ReadsBack j := by
  induction h with
  | null => exact readsBack_of_succ .null fun level fuel after _ _ => rfl
  | bool b =>
    refine readsBack_of_succ (.bool b) fun level fuel after _ _ => ?_
    cases b <;> rfl
  | nat n =>
    refine readsBack_of_succ (.nat n) fun level fuel after _ hafter => ?_
    exact readValue_number fuel (readNumber_append hafter (readNumber_digits n))
  | float hread =>
    refine readsBack_of_succ (.float hread) fun level fuel after _ hafter => ?_
    exact readValue_number fuel (readNumber_append hafter hread)
  | str s =>
    refine readsBack_of_succ (.str s) fun level fuel after _ _ => ?_
    obtain ⟨cs, hquoted, htext⟩ := readText_quoted s after
    rw [print, hquoted, readValue, htext]
    rfl
  | @arr items hitems ih =>
    rcases items with _ | ⟨item, items⟩
    · exact readsBack_of_succ (.arr hitems) fun level fuel after _ _ => rfl
    · rw [List.forall_mem_cons] at hitems ih
      exact readsBack_arr ⟨hitems.1, ih.1⟩ fun i hi => ⟨hitems.2 i hi, ih.2 i hi⟩
  | @obj members hmembers ih =>
    rcases members with _ | ⟨m, members⟩
    · exact readsBack_of_succ (.obj hmembers) fun level fuel after _ _ => rfl
    · rw [List.forall_mem_cons] at hmembers ih
      exact readsBack_obj ⟨hmembers.1, ih.1⟩ fun m hm => ⟨hmembers.2 m hm, ih.2 m hm⟩

/-- The text of a document is that of one document. -/
lemma Readable.read?_toText {j : Json} (h : Readable j) :
    Source.read? j.toText = some (source j) := by
  have hblanks := (startsValue_print h 0).skipBlanks_append []
  have hread := h.readsBack 0 ((print 0 j).length + 1) [] (by omega) (by rintro c ⟨⟩)
  rw [List.append_nil] at hblanks hread
  rw [Source.read?, toText, String.toList_ofList, hblanks, hread]
  rfl

/-! ### Records -/

lemma itemSources_eq_map (items : List Json) : itemSources items = items.map source := by
  induction items with
  | nil => rw [itemSources, List.map_nil]
  | cons item items ih => rw [itemSources, ih, List.map_cons]

lemma memberSources_eq_map (members : List (String × Json)) :
    memberSources members = members.map fun m => (m.1.toList.map textUnit, source m.2) := by
  induction members with
  | nil => rw [memberSources, List.map_nil]
  | cons m members ih => rw [memberSources, ih, List.map_cons]

/-- The document is read, and read as the value. -/
structure Returns {α : Type} (j : Json) (read : Source → Option α) (v : α) : Prop where
  readable : Readable j
  value : read (source j) = some v

lemma returns_nat {n : ℕ} (h : n < UInt64.size) : Returns (.nat n) Source.nat? n :=
  ⟨.nat n, by rw [source, nat?_wordSource h]⟩

lemma returns_float {x : Float} (h : Recovers x) : Returns (.float x) Source.float? x :=
  ⟨.float h.readNumber.1, by rw [source, h.readNumber.2]⟩

lemma returns_bool (b : Bool) : Returns (.bool b) Source.bool? b :=
  ⟨.bool b, by rw [source, Source.bool?]⟩

lemma returns_texts (texts : List String) : Returns (.ofList .str texts) Source.texts? texts where
  readable := .arr fun item hitem => by
    obtain ⟨text, -, rfl⟩ := List.mem_map.mp hitem
    exact .str text
  value := by
    have htext (text : String) : (source (.str text)).text? = some text := by
      rw [source, Source.text?, textOf?_map_textUnit]
    rw [Json.ofList, source, itemSources_eq_map, Source.texts?, List.map_map]
    induction texts with
    | nil => rfl
    | cons text texts ih => simp [htext, ih]

/-- The members of an object with the names of a record are the values of its fields. -/
lemma fields?_source_obj {names : List String} {members : List (String × Json)}
    (hnames : members.map Prod.fst = names) (hdistinct : names.Nodup) :
    (source (.obj members)).fields? names = some (members.map fun m => (m.1, source m.2)) := by
  subst hnames
  have hnamed : ((members.map fun m => (m.1.toList.map textUnit, source m.2)).mapM
      fun (m : List TextUnit × Source) => (textOf? m.1).map fun name => (name, m.2)) =
        some (members.map fun m => (m.1, source m.2)) := by
    clear hdistinct
    induction members with
    | nil => rfl
    | cons m members ih =>
      rw [List.map_cons, List.mapM_cons, ih, textOf?_map_textUnit]
      rfl
  have hknown : (members.map fun m => (m.1, source m.2)).filter (fun m =>
      (members.map Prod.fst).contains m.1) = members.map fun m => (m.1, source m.2) := by
    refine List.filter_eq_self.mpr fun m hm => ?_
    obtain ⟨m', hm', rfl⟩ := List.mem_map.mp hm
    simpa using ⟨m'.2, hm'⟩
  have hfirst : (members.map fun m => (m.1, source m.2)).map (·.1) = members.map Prod.fst := by
    rw [List.map_map]
    rfl
  rw [source, memberSources_eq_map, Source.fields?]
  simp only [hnamed, Option.bind_eq_bind, Option.bind_some, hknown, hfirst, hdistinct, if_true]

lemma returns_obj {α : Type} {names : List String} {members : List (String × Json)}
    {next : List (String × Source) → Option α} {v : α} (hnames : members.map Prod.fst = names)
    (hdistinct : names.Nodup) (hreadable : ∀ m ∈ members, Readable m.2)
    (hvalue : next (members.map fun m => (m.1, source m.2)) = some v) :
    Returns (.obj members) (fun source => source.fields? names >>= next) v :=
  ⟨.obj hreadable, by rw [fields?_source_obj hnames hdistinct]; exact hvalue⟩

/-- The value of a field of a record that was written. -/
lemma bind_field?_source {α β : Type} {members : List (String × Json)} {name : String} {j : Json}
    {read : Source → Option α} {v usual : α} {next : α → Option β}
    (hlookup : members.lookup name = some j) (h : Returns j read v) :
    (field? (members.map fun m => (m.1, source m.2)) name read usual >>= next) = next v := by
  have hmap : (members.map fun m => (m.1, source m.2)).lookup name = some (source j) := by
    induction members with
    | nil => cases hlookup
    | cons m members ih =>
      obtain ⟨first, j'⟩ := m
      rw [List.map_cons, List.lookup]
      rw [List.lookup] at hlookup
      split at hlookup
      · next heq =>
        obtain rfl := Option.some.inj hlookup
        rw [heq]
      · next heq =>
        rw [heq]
        exact ih hlookup
  rw [field?, hmap]
  exact congrArg (· >>= next) h.value

/-- The value of a field was read, or is the usual one. -/
lemma field?_cases {α : Type} {given : List (String × Source)} {name : String}
    {read : Source → Option α} {usual v : α} (h : field? given name read usual = some v) :
    (∃ source, read source = some v) ∨ v = usual := by
  unfold field? at h
  split at h
  · exact .inl ⟨_, h⟩
  · exact .inr (Option.some.inj h).symm

lemma lt_of_field? {given : List (String × Source)} {name : String} {usual n : ℕ}
    (h : field? given name Source.nat? usual = some n) (husual : usual < UInt64.size) :
    n < UInt64.size := by
  obtain ⟨source, hread⟩ | rfl := field?_cases h
  · exact lt_of_nat?_eq_some hread
  · exact husual

lemma isFinite_of_field? {given : List (String × Source)} {name : String} {usual x : Float}
    (h : field? given name Source.float? usual = some x) (husual : usual.isFinite) :
    x.isFinite := by
  obtain ⟨source, hread⟩ | rfl := field?_cases h
  · exact isFinite_float hread
  · exact husual

end Dissect.Json
