import ProtocolCorpus.Terminal.Style

/-!
# Versions

The version of the program, with the three parts of a semantic version in
colours of their own.
-/

namespace ProtocolCorpus

structure Build where
  version : Text := "0.3.0-dev"
  commit : Text := []
  date : Text := []

namespace Build

def majorStyle : Terminal.Style := ⟨some .yellow, true⟩

def minorStyle : Terminal.Style := ⟨some .green, true⟩

def patchStyle : Terminal.Style := ⟨some .blue, true⟩

/-- A version with its three parts in colours. What follows a hyphen or plus
stays plain, and so does a version that has not three parts. -/
def colourize (colours : Bool) (version : Text) : Text :=
  let core := version.takeWhile fun b => b != 0x2D && b != 0x2B
  match Text.splitOn 0x2E core with
  | [major, minor, patch] =>
    majorStyle.paint colours major ++ "." ++ minorStyle.paint colours minor ++
      "."
      ++ patchStyle.paint colours patch ++ version.drop core.length
  | _ => version

def banner (colours : Bool) (b : Build) : Text :=
  let extra := (if b.commit.isEmpty then [] else ["commit " ++ b.commit])
    ++ (if b.date.isEmpty then [] else ["built " ++ b.date])
  "wlbind " ++ colourize colours b.version
    ++ (if extra.isEmpty then [] else " (" ++ Text.join ", " extra ++ ")")

end Build

end ProtocolCorpus
