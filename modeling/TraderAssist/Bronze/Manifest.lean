/-
TraderAssist/Bronze/Manifest.lean

Manifests of bronze segments (`bronze.py`, `events.py`, `replay.py`).

A manifest is a file of lines, one entry a line, each with the hash of the one before it.  The
checkpoint of a finalized segment has the number of entries and the last hash, which fix them all
if hashes do not collide: from the end, each entry determines the one before it
(`manifest_tamper_evident`).

The decoders of lines and checkpoints are inputs, and so are the reasons that a replay finds in
events, payloads and other segments.  Left out: the fields that are constants.
-/
import TraderAssist.Lib.DecimalText
import TraderAssist.Lib.Raises

namespace TraderAssist

open Py

/-! ### Files -/

/-- `splitlines` of bytes, where `line` is what was read of the line. -/
def splitLines (line : List UInt8) : List UInt8 → List (List UInt8)
  | [] => if line = [] then [] else [line]
  | 13 :: 10 :: rest => line :: splitLines [] rest
  | byte :: rest =>
    if byte = 10 ∨ byte = 13 then line :: splitLines [] rest else splitLines (line ++ [byte]) rest

inductive BronzeError
  | truncatedLine
  | emptyLine (number : ℕ)
  | invalidLine (number : ℕ)
  | indexNotContiguous
  | previousHash
  | unexpectedSegment
  | checkpointShape
  | invalidCheckpoint
  | pathAuthority
  | entryCount
  | terminalHash

/-- A hash of entries and the hash before the first one. -/
structure ManifestHash (ε δ : Type) where
  genesis : δ
  compute : Text × ℕ × δ × ε → δ

variable {ε δ : Type}

/-- `RawManifestEntryV0`, with what `validate_entry` checks. -/
structure ManifestEntry (H : ManifestHash ε δ) where
  segmentId : Text
  entryIndex : ℕ
  previousEntryHash : δ
  entryHash : δ
  rawEvent : ε
  first : entryIndex = 0 → previousEntryHash = H.genesis
  later : 0 < entryIndex → previousEntryHash ≠ H.genesis
  bound : entryHash = H.compute (segmentId, entryIndex, previousEntryHash, rawEvent)

/-- `RawManifestCheckpointV0`, without its hash. -/
structure ManifestCheckpoint (δ : Type) where
  manifestDate : Text
  segmentId : Text
  expectedEntryCount : ℕ
  terminalEntryHash : δ

/-- The decoders: nothing where they raise. -/
structure ManifestDecoder (H : ManifestHash ε δ) where
  entry : List UInt8 → Option (ManifestEntry H)
  checkpoint : List UInt8 → Option (ManifestCheckpoint δ)

/-- The hash of the last entry. -/
def terminalHash {H : ManifestHash ε δ} (entries : List (ManifestEntry H)) : δ :=
  (entries.getLast?.map ManifestEntry.entryHash).getD H.genesis

variable [DecidableEq δ] {H : ManifestHash ε δ} (D : ManifestDecoder H)

/-- One turn of the loop of `parse_manifest_bytes`. -/
def parseLine (expected : Option Text) (entries : List (ManifestEntry H)) (line : List UInt8) :
    Except BronzeError (List (ManifestEntry H)) := do
  require (line ≠ []) (.emptyLine (entries.length + 1))
  let some entry := D.entry line | .error (.invalidLine (entries.length + 1))
  require (entry.entryIndex = entries.length) .indexNotContiguous
  require (entry.previousEntryHash = terminalHash entries) .previousHash
  let target := match expected.filter (· ≠ []), entries with
    | some segment, _ => segment
    | none, first :: _ => first.segmentId
    | none, [] => entry.segmentId
  require (entry.segmentId = target) .unexpectedSegment
  pure (entries ++ [entry])

/-- `parse_manifest_bytes`. -/
def parseManifest (raw : List UInt8) (expected : Option Text) :
    Except BronzeError (List (ManifestEntry H)) := do
  require (raw = [] ∨ raw.getLast? = some 10) .truncatedLine
  (splitLines [] raw).foldlM (parseLine D expected) []

/-- `parse_checkpoint_bytes`. -/
def parseCheckpoint (raw : List UInt8) (manifestDate segmentId : Text) :
    Except BronzeError (ManifestCheckpoint δ) := do
  require (raw.getLast? = some 10 ∧ raw.count 10 = 1) .checkpointShape
  let some checkpoint := D.checkpoint raw.dropLast | .error .invalidCheckpoint
  require (checkpoint.manifestDate = manifestDate ∧ checkpoint.segmentId = segmentId) .pathAuthority
  pure checkpoint

/-- `verify_checkpoint_against_entries`. -/
def verifyCheckpoint (checkpoint : ManifestCheckpoint δ) (entries : List (ManifestEntry H)) :
    Except BronzeError Unit := do
  require (checkpoint.expectedEntryCount = entries.length) .entryCount
  require (checkpoint.terminalEntryHash = terminalHash entries) .terminalHash

/-! ### Replay -/

inductive ReadFailure
  | missing
  | unreadable

inductive ReplayReason
  | missingManifest
  | manifestReadFailure
  | partialManifest
  | invalidManifest
  | missingCheckpoint
  | checkpointReadFailure
  | invalidCheckpoint
  | checkpointManifestMismatch
  | other (code : Text)

/-- The entries that a replay reads, and its reasons. -/
def replayManifest (segmentId : Text) :
    Except ReadFailure (List UInt8) → List (ManifestEntry H) × List ReplayReason
  | .error .missing => ([], [.missingManifest])
  | .error .unreadable => ([], [.manifestReadFailure])
  | .ok raw =>
    if raw ≠ [] ∧ raw.getLast? ≠ some 10 then ([], [.partialManifest])
    else match parseManifest D raw (some segmentId) with
      | .ok entries => (entries, [])
      | .error _ => ([], [.invalidManifest])

def replayCheckpoint (manifestDate segmentId : Text) (entries : List (ManifestEntry H)) :
    Except ReadFailure (List UInt8) → List ReplayReason
  | .error .missing => [.missingCheckpoint]
  | .error .unreadable => [.checkpointReadFailure]
  | .ok raw =>
    match parseCheckpoint D raw manifestDate segmentId with
    | .error _ => [.invalidCheckpoint]
    | .ok checkpoint =>
      match verifyCheckpoint checkpoint entries with
      | .ok _ => []
      | .error _ => [.checkpointManifestMismatch]

/-- `replay_segment`: the entries and the reasons to fail; it passes if there are none. -/
def replaySegment (manifestDate segmentId : Text) (manifest checkpoint : Except ReadFailure (List UInt8))
    (others : List (ManifestEntry H) → List ReplayReason) : List (ManifestEntry H) × List ReplayReason :=
  let (entries, reasons) := replayManifest D segmentId manifest
  (entries, reasons ++ replayCheckpoint D manifestDate segmentId entries checkpoint ++ others entries)

/-! ### Chains -/

/-- Each entry has the hash of the one before it. -/
inductive Linked : List (ManifestEntry H) → Prop
  | nil : Linked []
  | snoc {entries : List (ManifestEntry H)} {entry : ManifestEntry H} (h : Linked entries)
      (hprev : entry.previousEntryHash = terminalHash entries) : Linked (entries ++ [entry])

variable {D} {raw : List UInt8} {expected : Option Text} {entries entries' : List (ManifestEntry H)}

theorem parseLine_linked (h : Linked entries) (line : List UInt8) :
    Sat (parseLine D expected entries line) Linked fun _ => True := by
  refine (Sat.self fun _ _ => trivial).mono (fun entries' hline => ?_) fun _ h => h
  obtain ⟨-, hline⟩ := require_bind_ok.mp hline
  rcases hentry : D.entry line with - | entry
  · rw [hentry] at hline
    cases hline
  rw [hentry] at hline
  obtain ⟨-, hline⟩ := require_bind_ok.mp hline
  obtain ⟨hprev, hline⟩ := require_bind_ok.mp hline
  obtain ⟨-, hline⟩ := require_bind_ok.mp hline
  cases hline
  exact .snoc h hprev

theorem parseManifest_linked (h : parseManifest D raw expected = .ok entries) : Linked entries :=
  (Sat.foldlM (fun _ hes line _ => parseLine_linked hes line) [] .nil).of_ok (require_bind_ok.mp h).2

omit [DecidableEq δ] in
/-- **From the end, each entry determines the one before it.** -/
theorem Linked.eq_of_terminal (hinj : Function.Injective H.compute) (h : Linked entries) (h' : Linked entries')
    (hlen : entries.length = entries'.length) (hlast : terminalHash entries = terminalHash entries') :
    entries = entries' := by
  induction h generalizing entries' with
  | nil => exact (List.eq_nil_of_length_eq_zero hlen.symm).symm
  | @snoc entries entry h hprev ih =>
    cases h' with
    | nil => simp at hlen
    | @snoc entries' entry' h' hprev' =>
      have hhash : entry.entryHash = entry'.entryHash := by simpa [terminalHash] using hlast
      rw [entry.bound, entry'.bound] at hhash
      have hsame := hinj hhash
      simp only [Prod.mk.injEq] at hsame
      obtain ⟨hseg, hidx, hpre, hev⟩ := hsame
      rw [ih h' (by simpa using hlen) (hprev.symm.trans (hpre.trans hprev'))]
      have heq : entry = entry' := by
        obtain ⟨_, _, _, _, _, _, _, hb⟩ := entry
        obtain ⟨_, _, _, _, _, _, _, hb'⟩ := entry'
        cases hb
        cases hb'
        simp_all
      rw [heq]

theorem eq_of_verified (hinj : Function.Injective H.compute) {c : ManifestCheckpoint δ} (h : Linked entries)
    (h' : Linked entries') (hc : verifyCheckpoint c entries = .ok ()) (hc' : verifyCheckpoint c entries' = .ok ()) :
    entries = entries' := by
  obtain ⟨hlen, hlast⟩ := require_bind_ok.mp hc
  obtain ⟨hlen', hlast'⟩ := require_bind_ok.mp hc'
  exact h.eq_of_terminal hinj h' (hlen.symm.trans hlen')
    ((require_eq_ok.mp hlast).symm.trans (require_eq_ok.mp hlast'))

variable {manifestDate segmentId : Text} {manifest checkpoint : Except ReadFailure (List UInt8)}

theorem replayManifest_linked (h : (replayManifest D segmentId manifest).2 = []) :
    Linked (replayManifest D segmentId manifest).1 := by
  unfold replayManifest at h ⊢
  split at h
  · cases h
  · cases h
  · split_ifs at h ⊢
    split at h
    · rename_i hparse
      exact parseManifest_linked hparse
    · cases h

theorem replayCheckpoint_verified (h : replayCheckpoint D manifestDate segmentId entries checkpoint = []) :
    ∃ raw c, checkpoint = .ok raw ∧ parseCheckpoint D raw manifestDate segmentId = .ok c
      ∧ verifyCheckpoint c entries = .ok () := by
  unfold replayCheckpoint at h
  split at h
  · cases h
  · cases h
  · rename_i raw
    split at h
    · cases h
    · rename_i c hparse
      split at h
      · rename_i hverify
        exact ⟨raw, c, rfl, hparse, hverify⟩
      · cases h

/-- Hashes that are what was hashed, of entries whose events are bytes. -/
inductive Seal
  | genesis
  | of (segmentId : Text) (entryIndex : ℕ) (previous : Seal) (event : UInt8)
  deriving DecidableEq

def sealHash : ManifestHash UInt8 Seal where
  genesis := .genesis
  compute := fun (segmentId, entryIndex, previous, event) => .of segmentId entryIndex previous event

/-- A first entry, decoded from a line that starts with its event. -/
def sealEntry (event : UInt8) : ManifestEntry sealHash where
  segmentId := ['s']
  entryIndex := 0
  previousEntryHash := .genesis
  entryHash := .of ['s'] 0 .genesis event
  rawEvent := event
  first _ := rfl
  later := nofun
  bound := rfl

def sealDecoder : ManifestDecoder sealHash where
  entry line := line.head?.map sealEntry
  checkpoint _ := none

end TraderAssist
