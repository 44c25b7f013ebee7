import RenderVerdict.Command.Run
import RenderVerdict.Proofs.Report.Batch
import RenderVerdict.Proofs.Settings

/-! Requests: what arguments ask for. Those that ask for a report have one, unless it is to be on more
frames than there is memory for. -/
namespace RenderVerdict

namespace Options

def pairBytes (options : Options) : Nat := options.frames.getD 2 * FramePair.bytes

def overrun (options : Options) : CommandFault :=
  if maxArrayBytes < options.pairBytes then .tooManyFrames else .noMemory options.pairBytes

theorem framePairs_of_le {options : Options} (h : options.pairBytes ≤ addressableBytes)
    (candidate reference : String) : framePairs candidate reference (options.frames.getD 2) =
      .ok ((List.range (options.frames.getD 2)).map (framePair candidate reference)) := by
  have hroom : options.pairBytes ≤ maxArrayBytes := h.trans (by decide)
  unfold pairBytes at h hroom
  unfold framePairs
  rw [if_neg (Nat.not_lt.mpr hroom), if_neg (Nat.not_lt.mpr h)]

theorem framePairs_of_lt {options : Options} (h : addressableBytes < options.pairBytes)
    (candidate reference : String) :
    framePairs candidate reference (options.frames.getD 2) = .error options.overrun := by
  unfold pairBytes at h
  unfold framePairs overrun pairBytes
  dsimp only
  rw [if_pos h]
  split <;> rfl

end Options

namespace Settings

variable {settings : Settings} {files : FileTree} {options : Options} {report : Report}
  {command : String} {channel : Channel} {candidate reference : String}

/-- Two operands that are not both directories are compared as a batch compares documents. -/
theorem compareOperands_eq (h : ¬ (files.isDirectory candidate ∧ files.isDirectory reference)) :
    settings.compareOperands files channel candidate reference =
      (settings.caseOf files 0 .document channel candidate reference).map fun c => ⟨[c]⟩ := by
  have hnot : ¬ (files.isDirectory candidate && files.isDirectory reference) = true := by
    rwa [Bool.and_eq_true]
  unfold compareOperands caseOf compareDocumentFiles
  rw [if_neg hnot]
  cases files.loadDocument candidate with
  | error fault => rfl
  | ok actual =>
    cases files.loadDocument reference with
    | error fault => rfl
    | ok expected => rfl

theorem requireReport_eq_ok_iff {report? : Option Report} :
    requireReport report? = .ok report ↔ report? = some report := by
  cases report? <;> simp [requireReport]

/-- The command on two directories of pictures runs over the pairs of the frames, if there is room
for them. -/
theorem runCommand_images (h : options.positional = [candidate, reference]) :
    settings.runCommand files "images" options =
      (framePairs candidate reference (options.frames.getD 2) >>= fun pairs =>
        requireReport (settings.run files .images pairs)) := by
  unfold runCommand
  rw [if_pos rfl, h]

theorem runCommand_gltf (h : options.positional = [candidate, reference]) :
    settings.runCommand files "gltf" options = requireReport
      (settings.compareOperands files (options.channel.getD .color) candidate reference) := by
  unfold runCommand
  rw [if_neg (by decide), if_pos rfl, h]

/-- A command other than these two, or on other than two operands, is refused. -/
theorem runCommand_refused (settings : Settings) (files : FileTree)
    (h : ¬ ((command = "images" ∨ command = "gltf") ∧ options.positional.length = 2)) :
    ∃ fault, settings.runCommand files command options = .error fault ∧ fault.abortCode? = none := by
  unfold runCommand
  split
  · next himages =>
    split
    · next hoperands => exact absurd ⟨.inl himages, by rw [hoperands]; rfl⟩ h
    · exact ⟨_, rfl, rfl⟩
  · split
    · next hgltf =>
      split
      · next hoperands => exact absurd ⟨.inr hgltf, by rw [hoperands]; rfl⟩ h
      · exact ⟨_, rfl, rfl⟩
    · exact ⟨_, rfl, rfl⟩

/-- A known command on two operands, and not on too many frames, has a report, and nothing else
has. -/
theorem runCommand_eq_ok_iff : settings.runCommand files command options = .ok report ↔
    ∃ candidate reference, options.positional = [candidate, reference] ∧
      (command = "images" ∧ options.pairBytes ≤ addressableBytes ∧
          settings.run files .images ((List.range (options.frames.getD 2)).map
            (framePair candidate reference)) = some report ∨
        command = "gltf" ∧ settings.compareOperands files (options.channel.getD .color)
          candidate reference = some report) := by
  constructor
  · intro h
    by_cases hknown : (command = "images" ∨ command = "gltf") ∧ options.positional.length = 2
    · obtain ⟨candidate, reference, hoperands⟩ := List.length_eq_two.mp hknown.2
      refine ⟨candidate, reference, hoperands, hknown.1.imp ?_ ?_⟩
      · rintro rfl
        rw [runCommand_images hoperands] at h
        obtain ⟨pairs, hpairs, h⟩ := bind_eq_ok_iff.mp h
        rcases Nat.lt_or_ge addressableBytes options.pairBytes with hmany | hroom
        · rw [Options.framePairs_of_lt hmany] at hpairs
          cases hpairs
        · rw [Options.framePairs_of_le hroom] at hpairs
          cases hpairs
          exact ⟨rfl, hroom, requireReport_eq_ok_iff.mp h⟩
      · rintro rfl
        rw [runCommand_gltf hoperands] at h
        exact ⟨rfl, requireReport_eq_ok_iff.mp h⟩
    · obtain ⟨fault, hfault, -⟩ := runCommand_refused settings files hknown
      cases hfault.symm.trans h
  · rintro ⟨candidate, reference, hoperands, ⟨rfl, hroom, h⟩ | ⟨rfl, h⟩⟩
    · rw [runCommand_images hoperands, Options.framePairs_of_le hroom]
      exact requireReport_eq_ok_iff.mpr h
    · rw [runCommand_gltf hoperands]
      exact requireReport_eq_ok_iff.mpr h

theorem exists_compareOperands (h : settings.schema.places ≤ Binary.maxPlaces)
    (files : FileTree) (channel : Channel) (candidate reference : String) :
    ∃ report, settings.compareOperands files channel candidate reference = some report := by
  by_cases hfiles : files.isDirectory candidate ∧ files.isDirectory reference
  · unfold compareOperands
    rw [if_pos (by rwa [Bool.and_eq_true])]
    exact exists_run h files .documents _
  · obtain ⟨c, hc⟩ := exists_caseOf h files 0 .document channel candidate reference
    exact ⟨⟨[c]⟩, by rw [compareOperands_eq hfiles, hc]; rfl⟩

end Settings

namespace Options

variable {settings : Settings} {files : FileTree} {options : Options}

theorem validate_of_settings (h : options.settings files = .ok settings) :
    settings.validate = .ok () := by
  unfold Options.settings at h
  split at h
  · cases h
    exact Settings.validate_standard
  · split at h
    · rename_i hload
      cases h
      obtain ⟨text, -, hread⟩ := bind_eq_ok_iff.mp hload
      exact Settings.validate_of_read hread
    · cases h

/-- The settings of a command never ask for more places than numbers are written with. -/
theorem places_le (h : options.settings files = .ok settings) :
    settings.schema.places ≤ Binary.maxPlaces := by
  obtain ⟨_, hschema, -⟩ := bind_eq_ok_iff.mp (validate_of_settings h)
  exact (Schema.places_le_of_validate hschema).trans (by decide)

end Options

/-- Arguments ask for a report: the command is known, the options are right, there are two operands
and the settings are loaded. -/
structure Asks (files : FileTree) (arguments : List String) (command : String) (options : Options)
    (settings : Settings) : Prop where
  parsed : ∃ rest, arguments = command :: rest ∧ Options.parse rest = .ok options
  known : command = "images" ∨ command = "gltf"
  operands : options.positional.length = 2
  loaded : options.settings files = .ok settings

section Asking

variable {files : FileTree} {arguments : List String} {command : String} {options : Options}
  {settings : Settings} {report : Report}

theorem Asks.unique {command' : String} {options' : Options} {settings' : Settings}
    (h : Asks files arguments command options settings)
    (h' : Asks files arguments command' options' settings') :
    command' = command ∧ options' = options ∧ settings' = settings := by
  obtain ⟨rest, rfl, hparse⟩ := h.parsed
  obtain ⟨_, heq, hparse'⟩ := h'.parsed
  obtain ⟨rfl, rfl⟩ := List.cons.inj heq
  obtain rfl := Except.ok.inj (hparse.symm.trans hparse')
  exact ⟨rfl, rfl, Except.ok.inj (h'.loaded.symm.trans h.loaded)⟩

def Overruns (command : String) (options : Options) : Prop :=
  command = "images" ∧ addressableBytes < options.pairBytes

theorem Asks.exists_report (h : Asks files arguments command options settings)
    (hroom : ¬ Overruns command options) :
    ∃ report, settings.runCommand files command options = .ok report := by
  have hplaces : settings.schema.places ≤ Binary.maxPlaces := Options.places_le h.loaded
  obtain ⟨candidate, reference, hoperands⟩ := List.length_eq_two.mp h.operands
  rcases h.known with hcommand | hcommand
  · obtain ⟨report, hreport⟩ := Settings.exists_run hplaces files .images
      ((List.range (options.frames.getD 2)).map (framePair candidate reference))
    have hframes := Nat.not_lt.mp fun hmany => hroom ⟨hcommand, hmany⟩
    exact ⟨report, Settings.runCommand_eq_ok_iff.mpr
      ⟨candidate, reference, hoperands, .inl ⟨hcommand, hframes, hreport⟩⟩⟩
  · obtain ⟨report, hreport⟩ := Settings.exists_compareOperands hplaces files
      (options.channel.getD .color) candidate reference
    exact ⟨report, Settings.runCommand_eq_ok_iff.mpr
      ⟨candidate, reference, hoperands, .inr ⟨hcommand, hreport⟩⟩⟩

end Asking

end RenderVerdict
