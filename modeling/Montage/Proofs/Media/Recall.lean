import Mathlib.Data.Finset.Card
import Montage.Proofs.Scene.Locality

/-!
# Probes that are remembered

Memory does not show: in whichever order files are asked for, each request is answered as the probe
answers it.

**Input.** A probe that tells the same of a file however its name is written, and requests.

**Algorithm.** One invariant says of the requests that were served what is remembered after them and
how often each file was probed (`ProbeCache.Recalls`). A request meets a file that is remembered, one
that is new and found, or one that is not found; each of the three keeps the invariant.

**Results.**
* `ProbeCache.Recalls.serve`: one more request.
* `ProbeCache.getAll_transparent`: a run of requests.
-/

namespace Montage

variable {τ : Type}

/-- Names are compared alike under every name of a file. -/
theorem Path.same_eq {p q : Path} (h : p.same q = true) : p.same = q.same := by
  rw [same_iff] at h
  funext r
  rw [same, same, h]

namespace ProbeCache

variable {probe : Probe τ} {served : List Path} {c : ProbeCache τ}

/-- The answers to requests one after the other, and what is remembered after them. -/
def getAll (probe : Probe τ) :
    ProbeCache τ → List Path → List (Except Failure (MediaInfo τ)) × ProbeCache τ
  | c, [] => ([], c)
  | c, path :: paths =>
      let (answer, c') := c.get probe path
      let (answers, c'') := getAll probe c' paths
      (answer :: answers, c'')

/-- How often a file was probed, under any of its names. -/
def calls (c : ProbeCache τ) (path : Path) : Nat :=
  c.asked.countP (Path.same path)

/-- The names of the files that are remembered, by their components. -/
def keys (c : ProbeCache τ) : List (List String) :=
  c.entries.map fun entry => entry.1.components

/-- A request meets a file that is remembered, or else the probe finds it or fails. -/
theorem get_cases (probe : Probe τ) (c : ProbeCache τ) (path : Path) :
    (∃ info, c.find? path = some info ∧ c.get probe path = (.ok info, c)) ∨
      (∃ info, c.find? path = none ∧ probe path = .ok info ∧
        c.get probe path = (.ok info, ⟨(path, info) :: c.entries, path :: c.asked⟩)) ∨
      ∃ e, c.find? path = none ∧ probe path = .error e ∧
        c.get probe path = (.error e, ⟨c.entries, path :: c.asked⟩) := by
  unfold get
  cases hfind : c.find? path with
  | some info => exact Or.inl ⟨info, rfl, rfl⟩
  | none =>
      cases hprobe : probe path with
      | ok info => exact Or.inr (Or.inl ⟨info, rfl, rfl, rfl⟩)
      | error e => exact Or.inr (Or.inr ⟨e, rfl, rfl, rfl⟩)

/-- What requests leave behind: the files that were asked for and found are remembered, each under one
name; such a file was probed once, and a file that is not found at each request. -/
structure Recalls (probe : Probe τ) (served : List Path) (c : ProbeCache τ) : Prop where
  found : ∀ path, c.find? path = if served.any path.same then (probe path).toOption else none
  once : ∀ path info, probe path = .ok info → c.calls path = if served.any path.same then 1 else 0
  always : ∀ path e, probe path = .error e → c.calls path = served.countP path.same
  distinct : c.keys.Nodup
  keys : ∀ key, key ∈ c.keys ↔ ∃ path ∈ served, (probe path).isOk ∧ path.components = key

theorem recalls_empty (probe : Probe τ) : Recalls probe [] empty where
  found _ := rfl
  once _ _ _ := rfl
  always _ _ _ := rfl
  distinct := List.nodup_nil
  keys key := by simp [ProbeCache.keys, empty]

/-! ### One more request -/

theorem any_concat (served : List Path) (path q : Path) :
    (served ++ [path]).any q.same = (served.any q.same || q.same path) := by
  simp

theorem countP_concat (served : List Path) (path q : Path) :
    (served ++ [path]).countP q.same = served.countP q.same + if q.same path then 1 else 0 := by
  rw [List.countP_append, List.countP_singleton]

theorem exists_concat {p : Path → Prop} (served : List Path) (path : Path) :
    (∃ q ∈ served ++ [path], p q) ↔ (∃ q ∈ served, p q) ∨ p path := by
  simp [or_and_right, exists_or]

theorem calls_cons (entries : List (Path × MediaInfo τ)) (c : ProbeCache τ) (path q : Path) :
    (⟨entries, path :: c.asked⟩ : ProbeCache τ).calls q =
      c.calls q + if q.same path then 1 else 0 :=
  List.countP_cons

theorem find?_cons (c : ProbeCache τ) (path q : Path) (info : MediaInfo τ) (asked : List Path) :
    (⟨(path, info) :: c.entries, asked⟩ : ProbeCache τ).find? q =
      if q.same path then some info else c.find? q := by
  rw [find?, List.find?_cons, Path.same, Path.same, BEq.comm]
  cases q.components == path.components <;> rfl

end ProbeCache

theorem Probe.OfFiles.same_eq_false {probe : Probe τ} (h : probe.OfFiles) {p q : Path}
    (hne : probe p ≠ probe q) : p.same q = false :=
  Bool.eq_false_iff.2 (mt (h p q) hne)

namespace ProbeCache

namespace Recalls

variable {probe : Probe τ} {served : List Path} {c : ProbeCache τ} {path : Path}
  {info : MediaInfo τ} {e : Failure}

theorem any_eq_true (hc : Recalls probe served c) (hfind : c.find? path = some info) :
    served.any path.same = true ∧ probe path = .ok info := by
  have hfound := hc.found path
  rw [hfind] at hfound
  split at hfound
  · next hany =>
      refine ⟨hany, ?_⟩
      cases hprobe : probe path with
      | ok info' =>
          rw [hprobe] at hfound
          rw [Option.some.inj hfound]
      | error e =>
          rw [hprobe] at hfound
          cases hfound
  · cases hfound

theorem any_eq_false (hc : Recalls probe served c) (hfind : c.find? path = none)
    (hprobe : probe path = .ok info) : served.any path.same = false := by
  have hfound := hc.found path
  rw [hfind, hprobe] at hfound
  split at hfound
  · cases hfound
  · next hany => exact Bool.eq_false_iff.2 hany

/-- A request for a file that is remembered changes nothing. -/
theorem known (hc : Recalls probe served c) (h : probe.OfFiles) (hfind : c.find? path = some info) :
    Recalls probe (served ++ [path]) c := by
  obtain ⟨hany, hprobe⟩ := hc.any_eq_true hfind
  have hsame : ∀ q : Path, (served ++ [path]).any q.same = served.any q.same := by
    intro q
    rw [any_concat]
    cases hq : q.same path with
    | false => exact Bool.or_false _
    | true => rw [Path.same_eq hq, hany, Bool.or_true]
  constructor
  · intro q
    rw [hsame]
    exact hc.found q
  · intro q info' hq
    rw [hsame]
    exact hc.once q info' hq
  · intro q e hq
    rw [countP_concat, h.same_eq_false (by rw [hq, hprobe]; exact nofun)]
    exact hc.always q e hq
  · exact hc.distinct
  · intro key
    rw [hc.keys, exists_concat, or_iff_left_of_imp]
    -- the file was asked for under another name before
    rintro ⟨hok, rfl⟩
    obtain ⟨r, hr, hsame⟩ := List.any_eq_true.1 hany
    exact ⟨r, hr, h path r hsame ▸ hok, (Path.same_iff.1 hsame).symm⟩

/-- A request for a file that is new and found. -/
theorem learnt (hc : Recalls probe served c) (h : probe.OfFiles) (hfind : c.find? path = none)
    (hprobe : probe path = .ok info) :
    Recalls probe (served ++ [path]) ⟨(path, info) :: c.entries, path :: c.asked⟩ := by
  have hnew := hc.any_eq_false hfind hprobe
  constructor
  · intro q
    rw [find?_cons, any_concat]
    cases hq : q.same path with
    | true =>
        rw [h q path hq, hprobe, Bool.or_true]
        rfl
    | false =>
        rw [Bool.or_false]
        exact hc.found q
  · intro q info' hok
    rw [calls_cons, any_concat, hc.once q info' hok]
    cases hq : q.same path with
    | true =>
        rw [Path.same_eq hq, hnew]
        rfl
    | false =>
        rw [Bool.or_false]
        rfl
  · intro q e herror
    rw [calls_cons, countP_concat, hc.always q e herror]
  · refine List.nodup_cons.2 ⟨fun hmem => ?_, hc.distinct⟩
    obtain ⟨r, hr, -, hkey⟩ := (hc.keys _).1 hmem
    have hany : served.any path.same = true :=
      List.any_eq_true.2 ⟨r, hr, Path.same_iff.2 hkey.symm⟩
    rw [hnew] at hany
    cases hany
  · intro key
    change key ∈ path.components :: c.keys ↔ _
    rw [List.mem_cons, hc.keys, exists_concat, hprobe, or_comm, eq_comm]
    exact or_congr_right (and_iff_right rfl).symm

/-- A request for a file that is not found: only that it was probed is new. -/
theorem missed (hc : Recalls probe served c) (h : probe.OfFiles) (hprobe : probe path = .error e) :
    Recalls probe (served ++ [path]) ⟨c.entries, path :: c.asked⟩ := by
  constructor
  · intro q
    rw [any_concat]
    refine (hc.found q).trans ?_
    cases hq : q.same path with
    | true =>
        have hnone : (Except.error e : Except Failure (MediaInfo τ)).toOption = none := rfl
        rw [h q path hq, hprobe, hnone, ite_self, ite_self]
    | false => rw [Bool.or_false]
  · intro q info hok
    rw [calls_cons, any_concat, h.same_eq_false (by rw [hok, hprobe]; exact nofun), Bool.or_false]
    exact hc.once q info hok
  · intro q e' herror
    rw [calls_cons, countP_concat, hc.always q e' herror]
  · exact hc.distinct
  · intro key
    refine (hc.keys key).trans ?_
    rw [exists_concat, hprobe]
    exact (or_iff_left fun hok => Bool.false_ne_true hok.1).symm

/-- One more request is answered as the probe answers it. -/
theorem serve (hc : Recalls probe served c) (h : probe.OfFiles) (path : Path) :
    (c.get probe path).1 = probe path ∧
      Recalls probe (served ++ [path]) (c.get probe path).2 := by
  rcases get_cases probe c path with ⟨info, hfind, hget⟩ | ⟨info, hfind, hprobe, hget⟩ |
    ⟨e, -, hprobe, hget⟩
  · rw [hget, (hc.any_eq_true hfind).2]
    exact ⟨rfl, hc.known h hfind⟩
  · rw [hget, hprobe]
    exact ⟨rfl, hc.learnt h hfind hprobe⟩
  · rw [hget, hprobe]
    exact ⟨rfl, hc.missed h hprobe⟩

/-! ### Runs of requests -/

theorem serveAll (h : probe.OfFiles) (paths : List Path) (hc : Recalls probe served c) :
    (getAll probe c paths).1 = paths.map probe ∧
      Recalls probe (served ++ paths) (getAll probe c paths).2 := by
  induction paths generalizing served c with
  | nil => exact ⟨rfl, (List.append_nil served).symm ▸ hc⟩
  | cons path paths ih =>
      obtain ⟨hanswer, hnext⟩ := hc.serve h path
      obtain ⟨hanswers, hlast⟩ := ih hnext
      rw [List.append_assoc] at hlast
      exact ⟨congrArg₂ List.cons hanswer hanswers, hlast⟩

/-- As many files are remembered as were asked for and found. -/
theorem size_eq (hc : Recalls probe served c) :
    c.size = ((served.filter fun path => (probe path).isOk).map Path.components).toFinset.card := by
  have hkeys : c.keys.toFinset =
      ((served.filter fun path => (probe path).isOk).map Path.components).toFinset := by
    ext key
    rw [List.mem_toFinset, hc.keys, List.mem_toFinset, List.mem_map]
    simp only [List.mem_filter, and_assoc]
  rw [← hkeys, List.toFinset_card_of_nodup hc.distinct, ProbeCache.keys, List.length_map]
  rfl

end Recalls

/-- Memory does not show. Every request of a run is answered as the probe answers it, be it with an
error. After the run a file that was found was probed once if it was asked for, under whatever
names, and a file that was not found as often as it was asked for; as many files are remembered as
were asked for and found; and a request that fails leaves what is remembered as it was. -/
theorem getAll_transparent (h : probe.OfFiles) (paths : List Path) :
    let run := getAll probe empty paths
    run.1 = paths.map probe ∧
      (∀ path info, probe path = .ok info →
        run.2.calls path = if paths.any path.same then 1 else 0) ∧
      (∀ path e, probe path = .error e → run.2.calls path = paths.countP path.same) ∧
      run.2.size =
        ((paths.filter fun path => (probe path).isOk).map Path.components).toFinset.card ∧
      ∀ path e, (run.2.get probe path).1 = .error e →
        probe path = .error e ∧ (run.2.get probe path).2.entries = run.2.entries := by
  intro run
  obtain ⟨hanswers, hc⟩ := (recalls_empty probe).serveAll h paths
  refine ⟨hanswers, hc.once, hc.always, hc.size_eq, fun path e he => ?_⟩
  rcases get_cases probe run.2 path with ⟨_, -, hget⟩ | ⟨_, -, -, hget⟩ | ⟨_, -, hprobe, hget⟩
  · rw [hget] at he
    cases he
  · rw [hget] at he
    cases he
  · rw [hget] at he ⊢
    exact ⟨hprobe.trans he, rfl⟩

/-- A shelf with one reel on it. -/
def shelf : Probe Rat := fun path =>
  if path.components = ["clips", "b.mp4"] then .ok ⟨some 5, some ⟨640, 480⟩, none⟩
  else .error (.system "no such reel")

/-- The reel is asked for under two names and probed once; the one that is not there is asked for and
probed twice. -/
theorem getAll_transparent_shelf :
    let paths := [⟨"clips/b.mp4"⟩, ⟨"gone.mp4"⟩, ⟨"clips//./b.mp4"⟩, ⟨"gone.mp4"⟩]
    let run := getAll shelf empty paths
    run.1 = paths.map shelf ∧ run.2.calls ⟨"clips/b.mp4"⟩ = 1 ∧ run.2.calls ⟨"gone.mp4"⟩ = 2 ∧
      run.2.size = 1 := by
  have hfiles : shelf.OfFiles := by
    intro p q hsame
    rw [Path.same_iff] at hsame
    rw [shelf, shelf, hsame]
  have hthere : shelf ⟨"clips/b.mp4"⟩ = .ok ⟨some 5, some ⟨640, 480⟩, none⟩ := if_pos (by decide)
  have hgone : shelf ⟨"gone.mp4"⟩ = .error (.system "no such reel") := if_neg (by decide)
  intro paths run
  obtain ⟨hanswers, honce, halways, hsize, -⟩ := getAll_transparent hfiles paths
  refine ⟨hanswers, ?_, ?_, hsize.trans ?_⟩
  · exact (honce _ _ hthere).trans (by decide)
  · exact (halways _ _ hgone).trans (by decide)
  · decide

end ProbeCache
end Montage
