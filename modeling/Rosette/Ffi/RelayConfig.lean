import Rosette.Core.Backup
import Rosette.Directory.SigningKey

/-! # The relay that the environment names

The fingerprint is trimmed and then read by the loop that also reads the signing key.
-/
namespace Rosette.Ffi
open Foundation Directory

structure RelayConfig where
  addr : Text
  fingerprint : List UInt8
deriving DecidableEq

def relayConfigFromEnv (addr hex : Option Text) : Except Panic (Option RelayConfig) :=
  match addr, hex with
  | some addr, some hex =>
    if byteLen (trim Core.isWhitespace hex) ≠ 64 then .ok none
    else (hexBytes (trim Core.isWhitespace hex) 0 32).map (Option.map (RelayConfig.mk addr))
  | _, _ => .ok none

def fingerprintFromEnv (addr hex : Text) : Except Panic (Option (List UInt8)) :=
  (relayConfigFromEnv (some addr) (some hex)).map (Option.map RelayConfig.fingerprint)

theorem fingerprintFromEnv_eq (addr hex : Text) :
    fingerprintFromEnv addr hex = decodeHex32 (trim Core.isWhitespace hex) := by
  rw [fingerprintFromEnv, relayConfigFromEnv, decodeHex32]
  split_ifs with hlen
  · rfl
  · rcases hexBytes (trim Core.isWhitespace hex) 0 32 with e | (_ | bytes) <;> rfl

/-- Both parsers accept exactly the texts of 64 hexadecimal digits and return what they spell,
unless the text is 32 pairs of which one has a sign for its first digit. They panic exactly on a
text of 64 bytes in which a pair that they come to ends inside a character. -/
theorem hex_key_parsers_exact (s : Text) :
    (ReadsExactly s (decodeHex32 s) ↔ ¬ Signed s) ∧
    ((∃ panic, decodeHex32 s = .error panic) ↔ byteLen s = 64 ∧ Cut s) ∧
    ∀ addr value, trim Core.isWhitespace value = s →
      (ReadsExactly s (fingerprintFromEnv addr value) ↔ ¬ Signed s) ∧
      ((∃ panic, fingerprintFromEnv addr value = .error panic) ↔ byteLen s = 64 ∧ Cut s) := by
  refine ⟨decodeHex32_reads_iff, decodeHex32_eq_error, ?_⟩
  rintro addr value rfl
  rw [fingerprintFromEnv_eq]
  exact ⟨decodeHex32_reads_iff, decodeHex32_eq_error⟩

theorem hex_key_parsers_exact_letters :
    (∃ bytes, decodeHex32 (List.replicate 64 'A') = .ok (some bytes) ∧
      hexText bytes = List.replicate 64 'a') ∧
    ∃ panic, fingerprintFromEnv [] ('a' :: 'é' :: List.replicate 61 'a') = .error panic := by
  obtain ⟨haccepts, hencodes⟩ := (hex_key_parsers_exact (List.replicate 64 'A')).1.mpr
    fun hsigned => by simp [Signed] at hsigned
  obtain ⟨bytes, hbytes⟩ := haccepts.mpr ⟨by simp, by decide⟩
  refine ⟨⟨bytes, hbytes, (hencodes bytes hbytes).2.trans (by simp)⟩, ?_⟩
  have hwide := (hex_key_parsers_exact ('a' :: 'é' :: List.replicate 61 'a')).2.2
  exact (hwide [] _ (by decide +kernel)).2.mpr
    ⟨by decide +kernel, .inside (by decide) (by decide)⟩

/-- Signs are taken for digits, and a slice inside a character panics, in both parsers. -/
theorem hex_keys_with_signs : ∃ signs wide : Text,
    (∃ bytes, decodeHex32 signs = .ok (some bytes) ∧
      fingerprintFromEnv [] signs = .ok (some bytes) ∧
      ¬ signs.all isHexDigit = true ∧ hexText bytes ≠ signs.map Char.toLower) ∧
    decodeHex32 wide = .error .charBoundary ∧ fingerprintFromEnv [] wide = .error .charBoundary :=
  ⟨(List.replicate 32 ['+', 'a']).flatten, 'a' :: 'é' :: List.replicate 61 'a',
    ⟨List.replicate 32 10, by decide +kernel, by decide +kernel, by decide +kernel,
      by decide +kernel⟩, by decide +kernel, by decide +kernel⟩

end Rosette.Ffi
