import ClassUniverse.Manifest.Parse
import ClassUniverse.Proofs.Guarded.Chunks
import ClassUniverse.Proofs.Guarded.ClassFile
import ClassUniverse.Proofs.Guarded.KeyWords

/-!
# Parsers that never fault

Read at places, with every access, sum and loop guarded, a class file and a manifest give what their
parsers give, whatever their bytes are.
-/

namespace ClassUniverse

open Guarded
open String (utf8Len)

namespace ManifestLevels

open Manifest

/-- Reads a manifest in either form at places; a broken binary manifest names no levels. -/
def guardedParse (bytes : List UInt8) : Guarded ManifestLevels := do
  let kind ← attempt (u16At bytes 0)
  if kind = some 0x0003 then
    let levels ← attempt (binaryLevels bytes)
    return levels.getD {}
  else levelsIn (Text.decodeLossy bytes)

theorem guardedParse_eq {bytes : List UInt8} (few : bytes.length < 2 ^ 63)
    (fewText : isBinary bytes = false → utf8Len (Text.decodeLossy bytes) < 2 ^ 63) :
    guardedParse bytes = pure (parse bytes) := by
  rw [guardedParse, u16At_eq (by decide), attempt_ofOption, pure_bind, parse]
  by_cases binary : u16At? bytes 0 = some 0x0003
  · have isBinary : isBinary bytes = true := by rw [isBinary, binary]; rfl
    rw [if_pos binary, if_pos isBinary, binaryLevels_eq few, attempt_ofOption, pure_bind]
  · have isPlain : isBinary bytes = false := by
      rw [isBinary]
      exact beq_eq_false_iff_ne.mpr binary
    rw [if_neg binary, isPlain, levelsIn_eq (fewText isPlain)]
    rfl

end ManifestLevels

/-- Whatever bytes a machine of 64 bits can hold, a class file and a manifest are read to an end
without a fault: no access is out of range or within a character, no sum or product overflows, and
no loop is stuck.  A class file gives a definition or the error for it, a manifest gives levels. -/
theorem parsers_run_without_fault (name : String) {bytes : List UInt8} (few : bytes.length < 2 ^ 63)
    (fewText : Manifest.isBinary bytes = false → utf8Len (Text.decodeLossy bytes) < 2 ^ 63) :
    (ClassFile.guardedParse name bytes).run = .ok (some (ClassFile.parse name bytes)) ∧
    (ManifestLevels.guardedParse bytes).run = .ok (some (ManifestLevels.parse bytes)) ∧
    ((∃ definition, ClassFile.parse name bytes = .ok definition) ∨
      ClassFile.parse name bytes = .error (.configuration (.malformedClassFile name))) := by
  refine ⟨?_, ?_, ClassFile.parse_cases name bytes⟩
  · rw [ClassFile.guardedParse_eq name few]
    rfl
  · rw [ManifestLevels.guardedParse_eq few fewText]
    rfl

/-- The front of a class file whose only constant is longer than the file. -/
def brokenOff : List UInt8 := [0xCA, 0xFE, 0xBA, 0xBE, 0, 0, 0, 52, 0, 2, 1, 0xFF, 0xFF, 0xC3]

theorem parsers_run_without_fault_brokenOff :
    (ClassFile.guardedParse "a.Form" brokenOff).run =
      .ok (some (.error (.configuration (.malformedClassFile "a.Form")))) ∧
    (ManifestLevels.guardedParse brokenOff).run = .ok (some {}) := by
  have few : brokenOff.length < 2 ^ 63 := by decide
  have text : utf8Len (Text.decodeLossy brokenOff) ≤ 4 * brokenOff.length :=
    Text.utf8Len_decodeLossy brokenOff
  have fewText : utf8Len (Text.decodeLossy brokenOff) < 2 ^ 63 :=
    Nat.lt_of_le_of_lt text (by decide)
  obtain ⟨file, manifest, -⟩ := parsers_run_without_fault "a.Form" few fun _ => fewText
  have malformed : ClassFile.parse "a.Form" brokenOff =
      .error (.configuration (.malformedClassFile "a.Form")) := by decide +kernel
  have nothing : ManifestLevels.parse brokenOff = {} := by decide +kernel
  exact ⟨malformed ▸ file, nothing ▸ manifest⟩

end ClassUniverse
