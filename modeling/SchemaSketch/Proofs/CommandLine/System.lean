import SchemaSketch.CommandLine.Run
import Mathlib.Logic.Function.Basic

/-!
Systems in which the command can be run, and what it takes of them for granted: a file that is read
gives what it holds, a file that is written holds what was written, and nothing else happens to
files or to what has been printed.
-/
namespace SchemaSketch.CommandLine

/-- The files that paths lead to, there or yet to be made, and what they hold. Folders, devices and
streams are no files. -/
structure Files (File : Type) where
  at? : String → Option File
  held? : File → Option ByteArray

def Files.put {File : Type} [DecidableEq File] (d : Files File) (f : File) (text : String) :
    Files File :=
  { d with held? := Function.update d.held? f (some text.toUTF8) }

structure System (σ File : Type) where
  world : World (StateM σ)
  files : σ → Files File
  input : σ → ByteArray
  /-- What has come to the standard output by way of paths. -/
  output : σ → String

namespace System

variable {σ File : Type}

def Untouched (S : System σ File) (s s' : σ) : Prop :=
  S.files s' = S.files s ∧ S.output s' = S.output s

/-- Reading may fail, and so may writing. What the paths that lead to no file give, or do when they
are written to, is left open. -/
structure Lawful [DecidableEq File] (S : System σ File) : Prop where
  look {path : String} {s s' : σ} {there : Bool} :
    (S.world.isThere path).run s = (there, s') →
      S.Untouched s s' ∧ S.input s' = S.input s ∧
        ∀ f, (S.files s).at? path = some f → there = ((S.files s).held? f).isSome
  read {path : String} {s s' : σ} {text? : Option String} :
    (S.world.read? path).run s = (text?, s') →
      S.Untouched s s' ∧ ∀ f, (S.files s).at? path = some f →
        S.input s' = S.input s ∧ ∀ text, text? = some text → (S.files s).held? f = some text.toUTF8
  input {s s' : σ} {text? : Option String} :
    S.world.input?.run s = (text?, s') →
      S.Untouched s s' ∧ ∀ text, text? = some text → S.input s = text.toUTF8
  write {path text : String} {s s' : σ} {f : File} :
    (S.files s).at? path = some f → (S.world.write path text).run s = (true, s') →
      S.files s' = (S.files s).put f text ∧ S.output s' = S.output s
  writeFails {path text : String} {s s' : σ} :
    (S.world.write path text).run s = (false, s') → S.Untouched s s'

variable {S : System σ File}

theorem Untouched.trans {s s' s'' : σ} (h : S.Untouched s s') (h' : S.Untouched s' s'') :
    S.Untouched s s'' :=
  ⟨h'.1.trans h.1, h'.2.trans h.2⟩

end System

end SchemaSketch.CommandLine
