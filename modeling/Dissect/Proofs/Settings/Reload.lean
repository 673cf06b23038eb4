import Mathlib
import Dissect.Settings.File
import Dissect.Proofs.Disk.Write
import Dissect.Proofs.Json.RoundTrip

/-!
Settings that are saved and loaded again.

However little a document says and in whatever shape, the settings that are loaded from it have
whole numbers that fit a word and floating-point numbers that are finite. Such settings are written
with every field, and each value is read back from what is written, so the settings that are loaded
again are those that were saved. What the text of a floating-point number is read as is the one
thing that is asked of the numbers themselves.
-/

namespace Dissect

open Json

/-! ### Records of settings -/

namespace TextSettings

variable {s : TextSettings}

def words (s : TextSettings) : List ℕ := [s.minLength, s.maxLength]

def floats (s : TextSettings) : List Float := [s.minPrintableRatio]

lemma returns (hwords : ∀ n ∈ s.words, n < UInt64.size) (hfloats : ∀ x ∈ s.floats, Recovers x) :
    Returns s.document ofSource? s := by
  have hmin := returns_nat (hwords s.minLength (by simp [words]))
  have hmax := returns_nat (hwords s.maxLength (by simp [words]))
  have hratio := returns_float (hfloats s.minPrintableRatio (by simp [floats]))
  refine returns_obj rfl (by decide) ?_ ?_
  · simp [hmin.readable, hmax.readable, hratio.readable]
  · refine (bind_field?_source (by rfl) hmin).trans ?_
    refine (bind_field?_source (by rfl) hmax).trans ?_
    exact bind_field?_source (by rfl) hratio

lemma bounds {source : Source} (h : ofSource? source = some s) :
    (∀ n ∈ s.words, n < UInt64.size) ∧ ∀ x ∈ s.floats, x.isFinite := by
  obtain ⟨given, -, h⟩ := Option.bind_eq_some_iff.mp h
  obtain ⟨minLength, hmin, h⟩ := Option.bind_eq_some_iff.mp h
  obtain ⟨maxLength, hmax, h⟩ := Option.bind_eq_some_iff.mp h
  obtain ⟨ratio, hratio, h⟩ := Option.bind_eq_some_iff.mp h
  obtain rfl := Option.some.inj h
  have hmin' := lt_of_field? hmin (by decide)
  have hmax' := lt_of_field? hmax (by decide)
  have hratio' := isFinite_of_field? hratio (by decide +kernel)
  simp [words, floats, hmin', hmax', hratio']

end TextSettings

namespace SweepSettings

variable {s : SweepSettings}

def words (s : SweepSettings) : List ℕ := [s.maxInstructions, s.maxFunctions]

lemma returns (hwords : ∀ n ∈ s.words, n < UInt64.size) : Returns s.document ofSource? s := by
  have hinstructions := returns_nat (hwords s.maxInstructions (by simp [words]))
  have hfunctions := returns_nat (hwords s.maxFunctions (by simp [words]))
  refine returns_obj rfl (by decide) ?_ ?_
  · simp [hinstructions.readable, hfunctions.readable]
  · refine (bind_field?_source (by rfl) hinstructions).trans ?_
    exact bind_field?_source (by rfl) hfunctions

lemma bounds {source : Source} (h : ofSource? source = some s) :
    ∀ n ∈ s.words, n < UInt64.size := by
  obtain ⟨given, -, h⟩ := Option.bind_eq_some_iff.mp h
  obtain ⟨instructions, hinstructions, h⟩ := Option.bind_eq_some_iff.mp h
  obtain ⟨functions, hfunctions, h⟩ := Option.bind_eq_some_iff.mp h
  obtain rfl := Option.some.inj h
  have hinstructions' := lt_of_field? hinstructions (by decide)
  have hfunctions' := lt_of_field? hfunctions (by decide)
  simp [words, hinstructions', hfunctions']

end SweepSettings

namespace ObfuscationSettings

variable {s : ObfuscationSettings}

def words (s : ObfuscationSettings) : List ℕ := [s.jumpChain, s.maxXorCandidates, s.simplifyAbove]

def floats (s : ObfuscationSettings) : List Float :=
  [s.jumpRatio, s.nopRatio, s.textEntropy, s.encryptedRatio]

lemma returns (hwords : ∀ n ∈ s.words, n < UInt64.size) (hfloats : ∀ x ∈ s.floats, Recovers x) :
    Returns s.document ofSource? s := by
  have hjump := returns_float (hfloats s.jumpRatio (by simp [floats]))
  have hchain := returns_nat (hwords s.jumpChain (by simp [words]))
  have hnop := returns_float (hfloats s.nopRatio (by simp [floats]))
  have hentropy := returns_float (hfloats s.textEntropy (by simp [floats]))
  have hencrypted := returns_float (hfloats s.encryptedRatio (by simp [floats]))
  have hxor := returns_nat (hwords s.maxXorCandidates (by simp [words]))
  have hsimplify := returns_nat (hwords s.simplifyAbove (by simp [words]))
  refine returns_obj rfl (by decide) ?_ ?_
  · simp [hjump.readable, hchain.readable, hnop.readable, hentropy.readable, hencrypted.readable,
      hxor.readable, hsimplify.readable]
  · refine (bind_field?_source (by rfl) hjump).trans ?_
    refine (bind_field?_source (by rfl) hchain).trans ?_
    refine (bind_field?_source (by rfl) hnop).trans ?_
    refine (bind_field?_source (by rfl) hentropy).trans ?_
    refine (bind_field?_source (by rfl) hencrypted).trans ?_
    refine (bind_field?_source (by rfl) hxor).trans ?_
    exact bind_field?_source (by rfl) hsimplify

lemma bounds {source : Source} (h : ofSource? source = some s) :
    (∀ n ∈ s.words, n < UInt64.size) ∧ ∀ x ∈ s.floats, x.isFinite := by
  obtain ⟨given, -, h⟩ := Option.bind_eq_some_iff.mp h
  obtain ⟨jump, hjump, h⟩ := Option.bind_eq_some_iff.mp h
  obtain ⟨chain, hchain, h⟩ := Option.bind_eq_some_iff.mp h
  obtain ⟨nop, hnop, h⟩ := Option.bind_eq_some_iff.mp h
  obtain ⟨entropy, hentropy, h⟩ := Option.bind_eq_some_iff.mp h
  obtain ⟨encrypted, hencrypted, h⟩ := Option.bind_eq_some_iff.mp h
  obtain ⟨xor, hxor, h⟩ := Option.bind_eq_some_iff.mp h
  obtain ⟨simplify, hsimplify, h⟩ := Option.bind_eq_some_iff.mp h
  obtain rfl := Option.some.inj h
  have hjump' := isFinite_of_field? hjump (by decide +kernel)
  have hchain' := lt_of_field? hchain (by decide)
  have hnop' := isFinite_of_field? hnop (by decide +kernel)
  have hentropy' := isFinite_of_field? hentropy (by decide +kernel)
  have hencrypted' := isFinite_of_field? hencrypted (by decide +kernel)
  have hxor' := lt_of_field? hxor (by decide)
  have hsimplify' := lt_of_field? hsimplify (by decide)
  simp [words, floats, hjump', hchain', hnop', hentropy', hencrypted', hxor', hsimplify']

end ObfuscationSettings

namespace CallSettings

variable {s : CallSettings}

def words (s : CallSettings) : List ℕ := [s.lookback]

lemma returns (hwords : ∀ n ∈ s.words, n < UInt64.size) : Returns s.document ofSource? s := by
  have hlookback := returns_nat (hwords s.lookback (by simp [words]))
  refine returns_obj rfl (by decide) ?_ ?_
  · simp [hlookback.readable]
  · exact bind_field?_source (by rfl) hlookback

lemma bounds {source : Source} (h : ofSource? source = some s) :
    ∀ n ∈ s.words, n < UInt64.size := by
  obtain ⟨given, -, h⟩ := Option.bind_eq_some_iff.mp h
  obtain ⟨lookback, hlookback, h⟩ := Option.bind_eq_some_iff.mp h
  obtain rfl := Option.some.inj h
  have hlookback' := lt_of_field? hlookback (by decide)
  simp [words, hlookback']

end CallSettings

lemma DependencySettings.returns (s : DependencySettings) : Returns s.document ofSource? s := by
  have hfollow := returns_bool s.follow
  have hpaths := returns_texts s.searchPaths
  refine returns_obj rfl (by decide) ?_ ?_
  · simp [hfollow.readable, hpaths.readable]
  · refine (bind_field?_source (by rfl) hfollow).trans ?_
    exact bind_field?_source (by rfl) hpaths

namespace LimitSettings

variable {s : LimitSettings}

def words (s : LimitSettings) : List ℕ := [s.maxFileSize, s.workers]

lemma returns (hwords : ∀ n ∈ s.words, n < UInt64.size) : Returns s.document ofSource? s := by
  have hsize := returns_nat (hwords s.maxFileSize (by simp [words]))
  have hworkers := returns_nat (hwords s.workers (by simp [words]))
  refine returns_obj rfl (by decide) ?_ ?_
  · simp [hsize.readable, hworkers.readable]
  · refine (bind_field?_source (by rfl) hsize).trans ?_
    exact bind_field?_source (by rfl) hworkers

lemma bounds {source : Source} (h : ofSource? source = some s) :
    ∀ n ∈ s.words, n < UInt64.size := by
  obtain ⟨given, -, h⟩ := Option.bind_eq_some_iff.mp h
  obtain ⟨size, hsize, h⟩ := Option.bind_eq_some_iff.mp h
  obtain ⟨workers, hworkers, h⟩ := Option.bind_eq_some_iff.mp h
  obtain rfl := Option.some.inj h
  have hsize' := lt_of_field? hsize (by decide)
  have hworkers' := lt_of_field? hworkers (by decide)
  simp [words, hsize', hworkers']

end LimitSettings

/-! ### All settings -/

namespace Settings

variable {s : Settings} {disk : Disk} {path : String}

/-- The whole numbers in the settings. -/
def words (s : Settings) : List ℕ :=
  s.texts.words ++ s.sweep.words ++ s.obfuscation.words ++ s.calls.words ++ s.limits.words

/-- The floating-point numbers in the settings. -/
def floats (s : Settings) : List Float := s.texts.floats ++ s.obfuscation.floats

lemma returns (hwords : ∀ n ∈ s.words, n < UInt64.size) (hfloats : ∀ x ∈ s.floats, Recovers x) :
    Returns s.document ofSource? s := by
  simp only [words, floats, List.forall_mem_append] at hwords hfloats
  obtain ⟨⟨⟨⟨htexts, hsweep⟩, hobfuscation⟩, hcalls⟩, hlimits⟩ := hwords
  have htexts := TextSettings.returns htexts hfloats.1
  have hsweep := SweepSettings.returns hsweep
  have hobfuscation := ObfuscationSettings.returns hobfuscation hfloats.2
  have hcalls := CallSettings.returns hcalls
  have hdependencies := s.dependencies.returns
  have hlimits := LimitSettings.returns hlimits
  refine returns_obj rfl (by decide) ?_ ?_
  · simp [htexts.readable, hsweep.readable, hobfuscation.readable, hcalls.readable,
      hdependencies.readable, hlimits.readable]
  · refine (bind_field?_source (by rfl) htexts).trans ?_
    refine (bind_field?_source (by rfl) hsweep).trans ?_
    refine (bind_field?_source (by rfl) hobfuscation).trans ?_
    refine (bind_field?_source (by rfl) hcalls).trans ?_
    refine (bind_field?_source (by rfl) hdependencies).trans ?_
    exact bind_field?_source (by rfl) hlimits

/-- A record of settings that is missing is the one that an empty object stands for. -/
lemma exists_source {α : Type} {given : List (String × Source)} {name : String}
    {read : Source → Option α} {usual v : α} (h : field? given name read usual = some v)
    (husual : read (.object []) = some usual) : ∃ source, read source = some v := by
  obtain hsource | rfl := field?_cases h
  · exact hsource
  · exact ⟨_, husual⟩

/-- The numbers of settings that are read, from whatever document. -/
lemma bounds {source : Source} (h : ofSource? source = some s) :
    (∀ n ∈ s.words, n < UInt64.size) ∧ ∀ x ∈ s.floats, x.isFinite := by
  obtain ⟨given, -, h⟩ := Option.bind_eq_some_iff.mp h
  obtain ⟨texts, htexts, h⟩ := Option.bind_eq_some_iff.mp h
  obtain ⟨sweep, hsweep, h⟩ := Option.bind_eq_some_iff.mp h
  obtain ⟨obfuscation, hobfuscation, h⟩ := Option.bind_eq_some_iff.mp h
  obtain ⟨calls, hcalls, h⟩ := Option.bind_eq_some_iff.mp h
  obtain ⟨dependencies, -, h⟩ := Option.bind_eq_some_iff.mp h
  obtain ⟨limits, hlimits, h⟩ := Option.bind_eq_some_iff.mp h
  obtain rfl := Option.some.inj h
  obtain ⟨_, htexts⟩ := exists_source htexts rfl
  obtain ⟨_, hsweep⟩ := exists_source hsweep rfl
  obtain ⟨_, hobfuscation⟩ := exists_source hobfuscation rfl
  obtain ⟨_, hcalls⟩ := exists_source hcalls rfl
  obtain ⟨_, hlimits⟩ := exists_source hlimits rfl
  simp only [words, floats, List.forall_mem_append]
  exact ⟨⟨⟨⟨⟨(TextSettings.bounds htexts).1, SweepSettings.bounds hsweep⟩,
    (ObfuscationSettings.bounds hobfuscation).1⟩, CallSettings.bounds hcalls⟩,
    LimitSettings.bounds hlimits⟩,
    (TextSettings.bounds htexts).2, (ObfuscationSettings.bounds hobfuscation).2⟩

/-! ### Loading what was saved -/

lemma load_eq_ok_iff {text : String} :
    load text = .ok s ↔ ofText? text = some s ∧ s.fault? = none := by
  unfold load
  rcases ofText? text with _ | s'
  · simp
  · rcases hfault : s'.fault? with _ | fault
    · simp only [hfault, Except.ok.injEq, Option.some.injEq]
      exact ⟨fun h => ⟨h, h ▸ hfault⟩, And.left⟩
    · simp only [hfault, reduceCtorEq, Option.some.injEq, false_iff, not_and]
      rintro rfl
      simp [hfault]

/-- Settings that were loaded are loaded from the text that they are saved as. -/
lemma load_toText {text : String} (hload : load text = .ok s)
    (hfloats : ∀ x ∈ s.floats, x.isFinite → Recovers x) : load s.toText = .ok s := by
  obtain ⟨hread, hfault⟩ := load_eq_ok_iff.mp hload
  obtain ⟨source, -, hsource⟩ := Option.bind_eq_some_iff.mp hread
  obtain ⟨hwords, hfinite⟩ := bounds hsource
  have hreturns := returns hwords fun x hx => hfloats x hx (hfinite x hx)
  refine load_eq_ok_iff.mpr ⟨?_, hfault⟩
  rw [ofText?, toText, hreturns.readable.read?_toText]
  exact hreturns.value

lemma loadFile_eq_ok_iff :
    loadFile disk path = .ok s ↔ ∃ text, disk.readText path = .ok text ∧ load text = .ok s := by
  unfold loadFile
  rcases disk.readText path with fault | text
  · simp
  · rcases hload : load text with fault | s' <;> simp [hload]

lemma saveFile_eq_ok_iff {disk' : Disk} :
    s.saveFile disk path = .ok disk' ↔ disk.write path (Utf8.encode s.toText) = .ok disk' := by
  unfold saveFile
  rcases disk.write path (Utf8.encode s.toText) with fault | disk'' <;> simp

/-- What saving settings does to the settings that are loaded afterwards. -/
structure Reloads (disk : Disk) (path : String) (s : Settings) : Prop where
  /-- The text of the settings is loaded as them. -/
  text : load s.toText = .ok s
  /-- The settings can be saved where they were loaded from. -/
  saves : ∃ disk', s.saveFile disk path = .ok disk'
  /-- Wherever they are saved, their text is what stands there, they are loaded again, and saving
  them once more changes nothing. -/
  reload : ∀ target disk', s.saveFile disk target = .ok disk' →
    disk'.readText target = .ok s.toText ∧ loadFile disk' target = .ok s ∧
      s.saveFile disk' target = .ok disk'

/-- **Settings that are loaded, from whatever file, are the same after they are saved and loaded
again**, if the texts of their floating-point numbers are read as these. -/
theorem loadFile_reloads (hload : loadFile disk path = .ok s)
    (hfloats : ∀ x ∈ s.floats, x.isFinite → Recovers x) : Reloads disk path s := by
  obtain ⟨text, htext, hsettings⟩ := loadFile_eq_ok_iff.mp hload
  have hsame := load_toText hsettings hfloats
  refine ⟨hsame, ?_, fun target disk' hsave => ?_⟩
  · obtain ⟨disk', hwrite⟩ :=
      Disk.exists_write_of_read (Disk.readText_eq_ok_iff.mp htext) (Utf8.encode s.toText)
    exact ⟨disk', saveFile_eq_ok_iff.mpr hwrite⟩
  · obtain ⟨hread, hagain⟩ := Disk.read_write (saveFile_eq_ok_iff.mp hsave)
    have hwritten := Disk.readText_eq_ok_iff.mpr hread
    exact ⟨hwritten, loadFile_eq_ok_iff.mpr ⟨_, hwritten, hsame⟩, saveFile_eq_ok_iff.mpr hagain⟩

/-- Settings in a list, with fewer records than there are, and with escapes in their texts. -/
def shortText : String :=
  "[[1, 18446744073709551615], \x7b\"max_functions_per_section\": 0, \"other\": null\x7d, " ++
    "[0.25], [], [false, [\"C:\\\\new \\\"n\\\"\\n\", \"\\u0001\\ud83d\\ude00é/\", \"\"]]]"

def shortSettings : Settings where
  texts := { minLength := 1, maxLength := 18446744073709551615 }
  sweep := { maxFunctions := 0 }
  obfuscation := { jumpRatio := 0.25 }
  dependencies := { follow := false, searchPaths := ["C:\\new \"n\"\n", "\x01😀é/", ""] }

def shortDisk : Disk where
  root := .dir [("settings.json", .file (Utf8.encode shortText))]

theorem loadFile_reloads_short :
    loadFile shortDisk "settings.json" = .ok shortSettings ∧
      Reloads shortDisk "settings.json" shortSettings := by
  have hread : shortDisk.read "settings.json" = .ok (Utf8.encode shortText) := rfl
  have hsettings : load shortText = .ok shortSettings := by decide +kernel
  have hload : loadFile shortDisk "settings.json" = .ok shortSettings :=
    loadFile_eq_ok_iff.mpr ⟨shortText, Disk.readText_eq_ok_iff.mpr hread, hsettings⟩
  have hfloats : ∀ x ∈ shortSettings.floats, Recovers x := by decide +kernel
  exact ⟨hload, loadFile_reloads hload fun x hx _ => hfloats x hx⟩

end Settings

end Dissect
