/-
Whether a module that passes the checks can start.

A module starts with its initial pages, filled with zeros. Its segments are copied into them in
order, and it starts only if each of them lies inside. Limits of the memory are checked twice, in
the settings and in the module, but no check looks at the segments. What stands between the checks
and a start is therefore one case: settings that ask for no page are accepted, and then not even
the segment that every module has fits. One page is enough for it.
-/
import CallFlow.Proofs.Compilation

namespace CallFlow

-- ============================================================== starting

/-- The number of bytes in a page. -/
def pageSize : Nat := 65536

/-- A segment lies inside a memory with the given number of pages. -/
def Segment.FitsIn (s : Segment) (pages : UInt32) : Prop :=
  s.offset.toNat + s.bytes.length ≤ pages.toNat * pageSize

instance (s : Segment) (pages : UInt32) : Decidable (s.FitsIn pages) :=
  inferInstanceAs (Decidable (_ ≤ _))

namespace LinearMemory

/-- Pages of zeros. -/
def zeros (pages : UInt32) : LinearMemory where
  size := pages.toNat * pageSize
  byte := fun _ => 0

/-- The memory with a segment copied into it. There is none if the
segment goes past its end. -/
def copy (m : LinearMemory) (s : Segment) : Option LinearMemory :=
  if s.offset.toNat + s.bytes.length ≤ m.size then
    let byte := fun a =>
      if s.offset.toNat ≤ a then s.bytes.getD (a - s.offset.toNat) (m.byte a) else m.byte a
    some { m with byte }
  else none

/-- The memory with segments copied into it in order. -/
def copyAll (m : LinearMemory) : List Segment → Option LinearMemory
  | [] => some m
  | s :: ss => do
    (← m.copy s).copyAll ss

/-- A segment that could be copied ended inside the memory, and the
memory is as large as before. -/
theorem copy_eq_some {m m' : LinearMemory} {s : Segment} (h : m.copy s = some m') :
    s.offset.toNat + s.bytes.length ≤ m.size ∧ m'.size = m.size := by
  unfold copy at h
  split at h
  next hfits =>
    cases h
    exact ⟨hfits, rfl⟩
  next => cases h

/-- All segments can be copied exactly when each of them lies inside the
memory, as copying does not change its size. -/
theorem copyAll_isSome {m : LinearMemory} {ss : List Segment} :
    (m.copyAll ss).isSome ↔ ∀ s ∈ ss, s.offset.toNat + s.bytes.length ≤ m.size := by
  induction ss generalizing m with
  | nil => exact ⟨fun _ => List.forall_mem_nil _, fun _ => rfl⟩
  | cons s ss ih =>
    rw [List.forall_mem_cons, copyAll]
    cases hcopy : m.copy s with
    | none =>
      refine ⟨nofun, fun h => ?_⟩
      rw [copy, if_pos h.1] at hcopy
      cases hcopy
    | some m' =>
      obtain ⟨hfits, hsize⟩ := copy_eq_some hcopy
      rw [← hsize, ← ih, hsize]
      exact ⟨fun h => ⟨hfits, h⟩, fun h => h.2⟩

end LinearMemory

/-- The memory that a module starts with, if it can start. -/
def Memory.start? (m : Memory) : Option LinearMemory :=
  (LinearMemory.zeros m.initialPages).copyAll m.segments

/-- A memory can be started exactly when each of its segments is inside
the pages that it starts with. -/
theorem Memory.start?_isSome {m : Memory} :
    m.start?.isSome ↔ ∀ s ∈ m.segments, s.FitsIn m.initialPages :=
  LinearMemory.copyAll_isSome

-- ============================================================== settings

namespace Settings

/-- The settings pass their check when the pages are in order and the
memory has a name to be exported under. -/
theorem check_eq_ok {s : Settings} {u : Unit} :
    s.check = .ok u ↔
      s.memory.initialPages ≤ s.memory.maximumPages ∧ s.memory.exportName ≠ "" := by
  unfold check
  rw [← UInt32.not_lt]
  split
  next h => exact ⟨nofun, fun h' => absurd h h'.1⟩
  next h =>
    split
    next hname => exact ⟨nofun, fun h' => absurd (String.isEmpty_iff.mp hname) h'.2⟩
    next hname => exact ⟨fun _ => ⟨h, fun h' => hname (String.isEmpty_iff.mpr h')⟩, fun _ => rfl⟩

/-- Settings are loaded exactly from the documents that state them, if
they pass the check. The document is read first, and only what was read
is checked. -/
theorem load_eq_ok {path : String} {content : Option (List UInt8)} {s : Settings} :
    load path content = .ok s ↔
      (content.bind Text.ofUtf8?).bind ofText? = some s ∧ s.check = .ok () := by
  unfold load
  cases content.bind Text.ofUtf8? with
  | none => exact ⟨nofun, fun h => nomatch h.1⟩
  | some text =>
    rw [Option.bind_some]
    dsimp only
    cases ofText? text with
    | none => exact ⟨nofun, fun h => nomatch h.1⟩
    | some s' =>
      simp only [bind_eq_ok, pure_eq_ok, Option.some.injEq]
      constructor
      · rintro ⟨_, hcheck, rfl⟩
        exact ⟨rfl, hcheck⟩
      · rintro ⟨rfl, hcheck⟩
        exact ⟨(), hcheck, rfl⟩

/-- The segments of a memory that is made from settings fit as soon as
there is a page. -/
theorem segments_toMemory (s : Settings) (pages : UInt32) :
    (∀ g ∈ s.toMemory.segments, g.FitsIn pages) ↔ 0 < pages := by
  have hlength : (Text.utf8 "hello, world").length = 12 := by decide +kernel
  simp only [toMemory, List.forall_mem_singleton, Segment.FitsIn, hlength, pageSize,
    UInt32.lt_iff_toNat_lt]
  show 10 + 12 ≤ pages.toNat * 65536 ↔ 0 < pages.toNat
  omega

end Settings

-- ========================================================= checked modules

/-- What the checks say about a start. The limits of a memory that comes
from accepted settings are in order and inside the address space where a
source passes the check; and the segments of the module fit into its
initial pages, and it can start, exactly when the settings ask for a
page. -/
theorem checkSource_starts_iff {path : String} {content : Option (List UInt8)} {s : Settings}
    {text : String} {m : Module} (hs : Settings.load path content = .ok s)
    (hm : checkSource s.toMemory text = .ok m) :
    (m.memory.initialPages ≤ m.memory.maximumPages ∧ m.memory.maximumPages ≤ maxPages)
      ∧ ((∀ g ∈ m.memory.segments, g.FitsIn m.memory.initialPages) ↔ 0 < s.memory.initialPages)
      ∧ (m.memory.start?.isSome ↔ 0 < s.memory.initialPages) := by
  obtain ⟨hmodule, hvalid⟩ := checkSource_eq_ok.mp hm
  have hmemory : m.memory = s.toMemory := memory_of_moduleOf hmodule
  have hmaximum := (Module.checkMemory_eq_ok.mp (Module.validate_eq_ok.mp hvalid).2.1).1
  have hinitial := (Settings.check_eq_ok.mp (Settings.load_eq_ok.mp hs).2).1
  have hfits := s.segments_toMemory s.memory.initialPages
  rw [Memory.start?_isSome]
  rw [hmemory] at hmaximum ⊢
  exact ⟨⟨hinitial, hmaximum⟩, hfits, hfits⟩

-- ===================================================== one page and none

/-- Settings with a number of initial pages. -/
def Settings.ofPages (pages : UInt32) : Settings where
  package := { name := "pages", version := "1" }
  memory := { initialPages := pages }

/-- A document of these settings. -/
def Settings.document (pages : String) : List UInt8 :=
  Text.utf8 ("[package]\nname = \"pages\"\nversion = \"1\"\n[memory]\ninitial_pages = " ++ pages)

theorem eq_ok_of_toOption {ε α : Type} {x : Except ε α} {a : α} (h : x.toOption = some a) :
    x = .ok a := by
  cases x with
  | error e => cases h
  | ok b => rw [Option.some.inj h]

/-- The empty program passes the check with every memory whose limits
are in order. -/
theorem exists_checkSource_emptySource {memory : Memory} (hmaximum : memory.maximumPages ≤ maxPages)
    (hinitial : memory.initialPages ≤ memory.maximumPages) :
    ∃ m, checkSource memory emptySource = .ok m := by
  have hread : readSource emptySource = .ok {} := eq_ok_of_toOption (by decide +kernel)
  obtain ⟨m, hm, hnames, hexports, hbodies⟩ : ∃ m, moduleOf memory emptySource = .ok m
      ∧ m.checkNames = .ok ()
      ∧ Module.checkExports m.callables [m.memory.exportName] m.exports = .ok ()
      ∧ m.checkBodies m.functions = .ok () := by
    unfold moduleOf
    rw [hread]
    exact ⟨_, rfl, rfl, rfl, rfl⟩
  have hmemory : m.checkMemory = .ok () := by
    rw [Module.checkMemory_eq_ok, memory_of_moduleOf hm]
    exact ⟨hmaximum, hinitial⟩
  exact ⟨m, checkSource_eq_ok.mpr
    ⟨hm, Module.validate_eq_ok.mpr ⟨hnames, hmemory, hexports, hbodies⟩⟩⟩

/-- With settings that ask for one page, the empty program starts. -/
theorem one_page_starts :
    ∃ m, Settings.load "kiss.toml" (some (Settings.document "1")) = .ok (.ofPages 1)
      ∧ checkSource (Settings.ofPages 1).toMemory emptySource = .ok m
      ∧ (∀ g ∈ m.memory.segments, g.FitsIn m.memory.initialPages) ∧ m.memory.start?.isSome := by
  have hs : Settings.load "kiss.toml" (some (Settings.document "1")) = .ok (.ofPages 1) :=
    eq_ok_of_toOption (by decide +kernel)
  obtain ⟨m, hm⟩ : ∃ m, checkSource (Settings.ofPages 1).toMemory emptySource = .ok m :=
    exists_checkSource_emptySource (by decide) (by decide)
  obtain ⟨-, hfits, hstart⟩ := checkSource_starts_iff hs hm
  exact ⟨m, hs, hm, hfits.mpr (by decide), hstart.mpr (by decide)⟩

/-- Settings that ask for no page are accepted, and with them the empty
program passes the check; but its segment does not fit, and it cannot
start. -/
theorem no_page_checked_not_started :
    ∃ m, Settings.load "kiss.toml" (some (Settings.document "0")) = .ok (.ofPages 0)
      ∧ checkSource (Settings.ofPages 0).toMemory emptySource = .ok m
      ∧ ¬ (∀ g ∈ m.memory.segments, g.FitsIn m.memory.initialPages) ∧ m.memory.start? = none := by
  have hs : Settings.load "kiss.toml" (some (Settings.document "0")) = .ok (.ofPages 0) :=
    eq_ok_of_toOption (by decide +kernel)
  obtain ⟨m, hm⟩ : ∃ m, checkSource (Settings.ofPages 0).toMemory emptySource = .ok m :=
    exists_checkSource_emptySource (by decide) (by decide)
  have hfits : ¬ ∀ g ∈ m.memory.segments, g.FitsIn m.memory.initialPages := by
    rw [memory_of_moduleOf (checkSource_eq_ok.mp hm).1]
    exact fun h => absurd ((Settings.segments_toMemory _ _).mp h) (by decide)
  refine ⟨m, hs, hm, hfits, ?_⟩
  exact Option.not_isSome_iff_eq_none.mp fun h => hfits (Memory.start?_isSome.mp h)

end CallFlow
