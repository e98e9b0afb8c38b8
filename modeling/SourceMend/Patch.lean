import SourceMend.Diff.Compact
import SourceMend.Diff.Hunk
import SourceMend.Diff.Search
import SourceMend.Text.Lines

/-! Patches: the unified form of the difference of two texts. -/
namespace SourceMend.Patch

open Diff

/-- The script from one text to the other, line by line. -/
def script (before after : Text) : List (Edit Text) :=
  compact (search before.splitLines after.splitLines)

def number (n : Nat) : Text := Nat.toDigits 10 n

/-- First line and number of lines. The first line counts from one, except when there are no
lines; a single line needs no number. -/
def writeRange (before count : Nat) : Text :=
  number (if count = 0 then before else before + 1) ++
    if count = 1 then [] else ',' :: number count

def missingNewline : Text := "\n\\ No newline at end of file\n".toList

def writeSigned (sign : Char) (line : Text) : Text :=
  sign :: line ++ if line.isTerminated then [] else missingNewline

/-- An empty context line is written without the blank in front. -/
def writeLine : Line Text → Text
  | .context line => if line = ['\n'] then line else writeSigned ' ' line
  | .delete line => writeSigned '-' line
  | .insert line => writeSigned '+' line

def writeHunk (h : Hunk Text) : Text :=
  "@@ -".toList ++ writeRange h.oldBefore h.old.length ++ " +".toList ++
    writeRange h.newBefore h.new.length ++ " @@\n".toList ++ h.lines.flatMap writeLine

def header (path : String) : Text :=
  s!"diff --git a/{path} b/{path}\n--- a/{path}\n+++ b/{path}\n".toList

/-- The header that the differ writes above the hunks; it knows no path. -/
def differHeader : Text := "--- original\n+++ modified\n".toList

def differBody (before after : Text) : Text :=
  differHeader ++ (hunks (script before after)).flatMap writeHunk

/-- The hunks without the header above them. -/
def cutHeader (body : Text) : Text :=
  match body.splitOnce? "\n@@".toList with
  | some (_, rest) => "@@".toList ++ rest
  | none => body

/-- The patch that turns `before` into `after`; empty when they are equal. -/
def render (path : String) (before after : Text) : Text :=
  if before = after then []
  else
    let out := header path ++ cutHeader (differBody before after)
    if out.isTerminated then out else out ++ ['\n']

end SourceMend.Patch
