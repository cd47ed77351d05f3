import PackageRisk.Proofs.Work.Retrieval

/-!
# What a retrieval leaves behind

A retrieval removes its directory however it ends, and without a URL it does nothing. Elsewhere it
changes nothing but that it makes missing directories: those on the way to where it works, and
those on the ways of an archive's members, whose names may leave the directory and come back to it
(`analyze_cleans_up`).
-/

namespace PackageRisk.Archive

open Disk Location Work

variable {d : Disk} {temp : List String} {place : Location} {name : String}
  {settings : ArchiveSettings} {reply : Except Failure Reply} {far : Location → Bool}

/-- Names that lead past a place or to it. -/
def LeadsPast (d : Disk) (names : List String) (l : Location) : Prop :=
  ∃ front, front <+: names ∧ d.Arrives Anywhere [] front l

/-- Nothing is at a place or below it. -/
def IsClear (d : Disk) (work : Location) : Prop := ∀ l, work <+: l → d.at? l = none

/-- A disk on which a directory can be worked in, at a place that names lead to: they do not lead
through the directory itself, it is a real one or nothing is there, and unless nothing is there its
parent can be entered. -/
structure IsReady (d : Disk) (temp : List String) (place : Location) (name : String) : Prop where
  noDot : "." ∉ temp
  way : d.Arrives (Outside (place ++ [name])) [] temp place
  real : d.at? (place ++ [name]) = some .directory ∨ IsClear d (place ++ [name])
  usable : d.enter temp = .ok place ∧ d.at? place = some .directory ∨
    IsClear d (place ++ [name])

/-- Where a retrieval makes directories: on the way to where it works, and on the ways of the
members of what is delivered. -/
def Passes (d : Disk) (settings : ArchiveSettings) (reply : Except Failure Reply)
    (temp : List String) (target : Location) (l : Location) : Prop :=
  LeadsPast d temp l ∨ ∃ content ms, Delivers settings reply content ∧ members content = .ok ms ∧
    ∃ m ∈ ms, LeadsPast d (namesOf target m.name) l

theorem at?_prune_of_outside {w l : Location} (outside : Outside w l) :
    (d.prune w).at? l = d.at? l := by
  rw [prune_eq_without, at?_without (inside_eq_false_iff.2 outside)]

/-- The site of a retrieval that stays away from other places. -/
def siteAt (d : Disk) (settings : ArchiveSettings) (reply : Except Failure Reply)
    (far : Location → Bool) (plain : IsPlain name)
    (spread : ∀ l k, l <+: k → far l = true → far k = true)
    (apart : ∀ l, place ++ [name] <+: l → far l = false)
    (way : d.Arrives (fun l => Outside (place ++ [name]) l ∧ far l = false) [] temp place) :
    Site where
  clear := d.prune (place ++ [name])
  far := far
  made := Passes (d.prune (place ++ [name])) settings reply temp (place ++ [name] ++ [extractName])
  temp := temp
  place := place
  name := name
  plain := plain
  spread := spread
  apart := apart
  bare l below target := by
    have ne : l ≠ [] := by
      rintro rfl
      simp at below
    rw [at?_prune ne, if_pos below]
    exact nofun
  way := way.congr (fun _ => id) fun k along target => by rw [at?_prune_of_outside along.1]
  reach front l initial arrives := .inl ⟨front, initial, arrives⟩

theorem IsReady.found {plain : IsPlain name}
    {spread : ∀ l k, l <+: k → far l = true → far k = true}
    {apart : ∀ l, place ++ [name] <+: l → far l = false}
    (way : d.Arrives (fun l => Outside (place ++ [name]) l ∧ far l = false) [] temp place)
    (ready : IsReady d temp place name) :
    (siteAt d settings reply far plain spread apart way).Found d := by
  refine ⟨fun l outside _ target => ?_, ready.real, ready.usable⟩
  show _ ↔ (d.prune (place ++ [name])).at? l = _
  rw [at?_prune_of_outside (w := place ++ [name]) outside]

/-- A retrieval at a directory that is ready keeps to the terms of its site, if the members of what
is delivered have ways that stay away from the other places. -/
theorem IsReady.keeps {url package : String} {entropies : Bool} {plain : IsPlain name}
    {spread : ∀ l k, l <+: k → far l = true → far k = true}
    {apart : ∀ l, place ++ [name] <+: l → far l = false}
    {way : d.Arrives (fun l => Outside (place ++ [name]) l ∧ far l = false) [] temp place}
    (ready : IsReady d temp place name) (given : url ≠ "")
    (skirts : ∀ content ms, Delivers settings reply content → members content = .ok ms → ∀ m ∈ ms,
      (siteAt d settings reply far plain spread apart way).Skirts
        (namesOf (place ++ [name] ++ [extractName]) m.name)) :
    let s := siteAt d settings reply far plain spread apart way
    Keeps s.terms (fun _ => s.Left) (analysis settings reply (temp ++ [name]) url package entropies)
      d := by
  intro s
  refine s.keeps_analysis given ready.noDot (fun content ms delivers read m mem => ?_)
    (ready.found way)
  refine ⟨skirts content ms delivers read m mem, fun front l initial arrives => .inr (.inr ?_)⟩
  exact ⟨content, ms, delivers, read, m, mem, front, initial, arrives⟩

/-- A disk with a directory of an earlier retrieval. -/
def staleDisk : Disk :=
  ⟨[(["tmp"], .directory), (["tmp", "npm-security-score"], .directory),
    (["tmp", "npm-security-score", "p"], .directory),
    (["tmp", "npm-security-score", "p", "old.js"], .file .empty)]⟩

theorem isReady_staleDisk :
    IsReady staleDisk (tempNames .standard []) ["tmp", "npm-security-score"]
      (directoryName "p") := by
  have name : directoryName "p" = "p" := by decide
  rw [tempNames_standard, name]
  refine ⟨by decide, ?_, .inl rfl, .inl ⟨rfl, rfl⟩⟩
  refine .down (by decide) ?_ nofun (.down (by decide) ?_ nofun .here)
  · exact fun below => absurd below (by decide)
  · exact fun below => absurd below (by decide)

end PackageRisk.Archive
