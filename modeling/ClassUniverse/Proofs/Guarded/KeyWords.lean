import ClassUniverse.Manifest.Plain
import ClassUniverse.Proofs.Guarded.Text

/-!
# Reading a plain manifest at places

A plain manifest is searched for the places of a key word, and what stands behind one of them is cut
off at its end.  No key word occurs again within itself, so the places one behind the end of the
other are all the places there are.
-/

namespace ClassUniverse.Manifest

open Text Guarded
open String (utf8Len utf8Len_nil utf8Len_cons utf8Len_append)

variable {key s : List Char}

/-- The number behind the first of some places of a key word that has one. -/
def numberBehind (text key : List Char) : List Nat → Guarded (Option UInt32)
  | [] => pure none
  | place :: places => do
      let stop ← plus place (utf8Len key)
      let rest ← textFrom text stop
      match numberAhead? rest with
      | some n => return some n
      | none => numberBehind text key places

def numberBehindAny (text : List Char) : List String → Guarded (Option UInt32)
  | [] => pure none
  | key :: keys => do
      match ← numberBehind text key.toList (placesOf key.toList 0 0 text) with
      | some n => return some n
      | none => numberBehindAny text keys

def levelsIn (text : List Char) : Guarded ManifestLevels := do
  let target ← numberBehindAny text ["targetSdkVersion", "target-version"]
  let minimum ← numberBehindAny text ["minSdkVersion", "min-version"]
  let build ← numberBehindAny text ["platformBuildVersionCode"]
  return { target := target, minimum := minimum, build := build }

/-- The search passes over characters where no key word begins. -/
theorem numberAfter?_drop {n : Nat} (free : ∀ i < n, ¬ key <+: s.drop i) :
    numberAfter? key s = numberAfter? key (s.drop n) := by
  induction n generalizing s with
  | zero => rfl
  | succ n ih =>
      cases s with
      | nil => rfl
      | cons c rest =>
          have first : key.isPrefixOf (c :: rest) = false := by
            rw [← Bool.not_eq_true, List.isPrefixOf_iff_prefix]
            exact free 0 (Nat.succ_pos n)
          have later : ∀ i < n, ¬ key <+: rest.drop i := fun i less => free (i + 1) (by omega)
          rw [numberAfter?, first, List.drop_succ_cons]
          exact ih later

/-- The search that goes on behind an occurrence misses no other. -/
theorem numberBehind_placesOf (unbordered : IsUnbordered key)
    {before : List Char} {skip : Nat} (small : utf8Len (before ++ s) < 2 ^ 63) :
    numberBehind (before ++ s) key (placesOf key skip (utf8Len before) s) =
      pure (numberAfter? key (s.drop skip)) := by
  induction s generalizing before skip with
  | nil =>
      rw [List.drop_nil]
      cases skip <;> rfl
  | cons c rest ih =>
      have moved : before ++ c :: rest = (before ++ [c]) ++ rest := by simp
      have place : utf8Len before + c.utf8Size = utf8Len (before ++ [c]) := by simp
      have later (skip : Nat) :
          numberBehind (before ++ c :: rest) key
            (placesOf key skip (utf8Len before + c.utf8Size) rest) =
              pure (numberAfter? key (rest.drop skip)) := by
        rw [moved, place]
        exact ih (moved ▸ small)
      cases skip with
      | succ skip => exact later skip
      | zero =>
          rw [placesOf, List.drop_zero, numberAfter?]
          by_cases occurs : key.isPrefixOf (c :: rest) = true
          · obtain ⟨after, parts⟩ := List.isPrefixOf_iff_prefix.mp occurs
            have behind : textFrom (before ++ c :: rest) (utf8Len before + utf8Len key) =
                pure after := by
              rw [← parts, ← List.append_assoc, ← utf8Len_append]
              exact textFrom_append (before ++ key) after
            have inside : utf8Len before + utf8Len key < 2 ^ 64 := by
              rw [← parts, utf8Len_append, utf8Len_append] at small
              omega
            have ahead : (c :: rest).drop key.length = after := by rw [← parts, List.drop_left]
            rw [if_pos occurs, if_pos occurs, numberBehind, plus_eq inside, pure_bind, behind,
              pure_bind, ahead]
            cases numberAhead? after with
            | some n => rfl
            | none =>
                dsimp only
                rw [later]
                congr 1
                symm
                refine numberAfter?_drop fun i less => ?_
                have longer : i + 1 < key.length := by omega
                exact unbordered.not_prefix (List.isPrefixOf_iff_prefix.mp occurs)
                  (Nat.succ_pos i) longer
          · rw [if_neg occurs, if_neg occurs]
            exact later 0

theorem numberBehindAny_eq {text : List Char} (small : utf8Len text < 2 ^ 63) {keys : List String}
    (unbordered : ∀ key ∈ keys, IsUnbordered key.toList) :
    numberBehindAny text keys = pure (numberAfterAny? keys text) := by
  induction keys with
  | nil => rfl
  | cons key keys ih =>
      rw [List.forall_mem_cons] at unbordered
      have first : numberBehind text key.toList (placesOf key.toList 0 0 text) =
          pure (numberAfter? key.toList text) :=
        @numberBehind_placesOf key.toList text unbordered.1 [] 0 small
      rw [numberBehindAny, first, pure_bind, numberAfterAny?, List.findSome?_cons]
      cases numberAfter? key.toList text with
      | some n => rfl
      | none => exact ih unbordered.2

theorem levelsIn_eq {text : List Char} (small : utf8Len text < 2 ^ 63) :
    levelsIn text = pure (plainLevels text) := by
  rw [levelsIn, numberBehindAny_eq small (by decide), pure_bind,
    numberBehindAny_eq small (by decide), pure_bind, numberBehindAny_eq small (by decide)]
  rfl

end ClassUniverse.Manifest
