import PackageRisk.Proofs.Archive.Opening
import PackageRisk.Proofs.Pipeline
import PackageRisk.Proofs.Scoring.Retrieving
import PackageRisk.Proofs.Work.Crew

/-!
# Scoring many packages

The scorings of a list of packages, each as work on the disk that any number of steps of others may
interrupt. In whatever order they go on, no more than the limit are in progress, the reports are
numbered as they come, and in the end each package was reported and there is one pair for it, in the
order of the list, with what its scoring ended with. Scoring the packages one after the other is one
of these ways (`scoreMany_in_any_order`).

With the standard rules the scorings have nothing in common but the disk, and there each has a
directory of its own. Where these directories differ each scoring ends as it does alone
(`HaveRoom.outcomes`), so that none notices that another one fails. It does not matter which of them
makes the directory that they are all in.
-/

namespace PackageRisk.Pipeline

open Archive (Retrieves Hosts Opens StaysDown directoryName tempNames)
open Relation (ReflTransGen)
open Work (Performs fetched)

variable {p : Pipeline} {names : List String} {net : Network} {w : Workspace} {limit : Nat}
  {works : Nat → Work Failure Score} {crew : Crew Failure Score}

/-- The directories in which the archives of packages are retrieved. -/
def directories (p : Pipeline) (net : Network) (names : List String) : List String :=
  (names.map (p.foundName net)).map directoryName

/-- Scorings of packages as works that retrieve their archives in directories of their own, in one
that is there or can be made. No member of their archives has a name that leads out of the
directory: it might lead through the directory of another package and back. -/
structure HaveRoom (p : Pipeline) (names : List String) (net : Network) (w : Workspace)
    (works : Nat → Work Failure Score) : Prop where
  place :
    (∃ l, Hosts w.disk (tempNames p.settings.archives w.home) l (p.directories net names)) ∨
      Opens w.disk (tempNames p.settings.archives w.home) (p.directories net names)
  distinct : (p.directories net names).Nodup
  retrieves : ∀ i : Fin names.length, ∃ url,
    Retrieves p.settings.archives net w.home (p.foundName net (names.get i)) url (works i) ∧
      StaysDown p.settings.archives (fetched net url)

theorem directories_ne (distinct : (p.directories net names).Nodup) {i j : Fin names.length}
    (ne : i ≠ j) : directoryName (p.foundName net (names.get i)) ≠
      directoryName (p.foundName net (names.get j)) := by
  intro same
  have within (k : Fin names.length) : k.val < (p.directories net names).length := by
    simp [directories]
  have own (k : Fin names.length) : (p.directories net names).get ⟨k, within k⟩ =
      directoryName (p.foundName net (names.get k)) := by
    simp [directories]
  have equal := List.nodup_iff_injective_get.1 distinct ((own i).trans (same.trans (own j).symm))
  exact ne (Fin.ext (Fin.mk.inj_iff.1 equal))

/-- Where packages have room, each scoring ends as it does alone. -/
theorem HaveRoom.ends (room : HaveRoom p names net w works)
    (reaches : ReflTransGen Crew.Step (.ofNames limit names works w.disk) crew)
    {i : Fin names.length} {outcome : Except Failure Score}
    (ended : crew.works i = .ended outcome) :
    outcome = ((works i).run w.disk).1 := by
  have among (i : Fin names.length) :
      directoryName (p.foundName net (names.get i)) ∈ p.directories net names :=
    List.mem_map_of_mem (List.mem_map_of_mem (List.getElem_mem _))
  choose url retrieves staysDown using room.retrieves
  rcases room.place with ⟨_, hosts⟩ | opens
  · have keeps (i : Fin names.length) := (retrieves i).keeps hosts (among i) (staysDown i)
    refine Crew.ends_of_keeps (fun i j ne d d' guarantee => ?_) keeps reaches ended
    exact Archive.suits (directories_ne room.distinct ne) (staysDown i) (fun _ _ => trivial)
      guarantee
  · have keeps (i : Fin names.length) := (retrieves i).keeps_opening opens (among i) (staysDown i)
    refine Crew.ends_of_keeps (fun i j ne d d' guarantee => ?_) keeps reaches ended
    exact Archive.suits (directories_ne room.distinct ne) (staysDown i)
      (fun opening does => opening.does opens (staysDown i) does) guarantee

/-- Then the pairs are the same in whatever order the scorings go on. -/
theorem HaveRoom.outcomes (room : HaveRoom p names net w works)
    (performs : ∀ i : Fin names.length,
      Performs (works i) (p.score (names.get i) none) net w.home)
    (reaches : ReflTransGen Crew.Step (.ofNames limit names works w.disk) crew)
    (isOver : crew.batch.IsOver) :
    crew.batch.outcomes = names.map fun name => (name, (p.score name none net w).1) := by
  refine (Crew.batch_reaches reaches fun crew reaches i outcome ended => ?_).outcomes_eq isOver
  rw [room.ends reaches ended, (performs i w rfl).1]

/-- The document about a package that has an archive. -/
def listing : ByteArray :=
  ("\x7b\"dist-tags\":\x7b\"latest\":\"1\"\x7d,\"versions\":\x7b\"1\":" ++
    "\x7b\"dist\":\x7b\"tarball\":\"https://h/p.tgz\"\x7d\x7d\x7d\x7d").toUTF8

/-- A registry that knows one package, whose archive is not there. -/
def oneListed : Network := fun url =>
  if url = "https://registry.npmjs.org/p" then .response 200 none [listing]
  else .response 404 none []

theorem staysDown_oneListed (settings : ArchiveSettings) (url : String) :
    StaysDown settings (.ok (oneListed url)) := by
  rintro content ms ⟨status, location, chunks, answered, success, received⟩ read
  have answered := Except.ok.inj answered
  unfold oneListed at answered
  split_ifs at answered
  · cases answered
    have whole : content = .empty ++ listing := by
      unfold Archive.receive Archive.receive at received
      split_ifs at received
      · cases received
      · exact (Prod.mk.inj received).2.symm
    have noArchive : (Archive.members (ByteArray.empty ++ listing)).toOption.isNone = true := by
      decide +kernel
    rw [← whole, read] at noArchive
    cases noArchive
  · cases answered
    cases success

end PackageRisk.Pipeline
