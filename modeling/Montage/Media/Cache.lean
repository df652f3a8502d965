import Montage.Failure

/-!
# Remembered probes

**Input.** A probe, which tells what is known about a file or fails, and the paths that are asked
for.

**Algorithm.** What was found for a path is kept; a failure is not. Paths are the same if they have
the same components.

**Results.** A path that is remembered is not probed again (`ProbeCache.get`).
-/

namespace Montage

/-- A source of facts about media files. -/
abbrev Probe (τ : Type) :=
  Path → Except Failure (MediaInfo τ)

/-- What was found so far, and the paths that were probed, the last first. -/
structure ProbeCache (τ : Type) where
  entries : List (Path × MediaInfo τ)
  asked : List Path

namespace ProbeCache

variable {τ : Type}

/-- Nothing has been probed. -/
def empty : ProbeCache τ :=
  ⟨[], []⟩

/-- The number of paths that are remembered. -/
def size (c : ProbeCache τ) : Nat :=
  c.entries.length

/-- What is remembered for a path. -/
def find? (c : ProbeCache τ) (path : Path) : Option (MediaInfo τ) :=
  (c.entries.find? fun entry => entry.1.same path).map Prod.snd

/-- What is known about a file: from memory, or else from the probe. -/
def get (probe : Probe τ) (c : ProbeCache τ) (path : Path) :
    Except Failure (MediaInfo τ) × ProbeCache τ :=
  match c.find? path with
  | some info => (.ok info, c)
  | none =>
      let asked := path :: c.asked
      match probe path with
      | .ok info => (.ok info, ⟨(path, info) :: c.entries, asked⟩)
      | .error e => (.error e, { c with asked })

end ProbeCache

/-- Computations that probe files on the way. -/
abbrev Probing (τ : Type) :=
  ExceptT Failure (StateM (ProbeCache τ))

/-- What is known about a file. -/
def Probing.info {τ : Type} (probe : Probe τ) (path : Path) : Probing τ (MediaInfo τ) :=
  fun cache => ProbeCache.get probe cache path

end Montage
