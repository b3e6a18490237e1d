import FunctionPairs.Proofs.FileSystem.Descent
import FunctionPairs.Proofs.FileSystem.Traversal
import FunctionPairs.Proofs.Transformation.Frame
import FunctionPairs.Proofs.Transformation.Tasks

/-!
One entry of the tree visited. A visit makes a directory, copies a file, rewrites one or passes the
entry over. What comes of that is put in one piece into the output, or where a link in the output
leads to; a visit that fails changes nothing.
-/
namespace FunctionPairs

open FileSystem (Fills Fits Plain)

inductive Deed
  | made
  | skipped
  | copied (contents : Bytes) (executable : Bool)
  | rewritten (task : Task) (answers : List String) (executable : Bool)

structure Visit where
  spot : Spot
  deed : Deed

namespace Visit

def target (v : Visit) : List Name :=
  match v.deed with
  | .rewritten k _ _ => v.spot.above ++ [k.target]
  | _ => v.spot.names

def entry? (v : Visit) : Option Entry :=
  match v.deed with
  | .made => some .directory
  | .skipped => none
  | .copied contents x => some (.file contents x)
  | .rewritten k answers x => some (.file (k.output answers) x)

def lay (lo : Location) (v : Visit) (fs : FileSystem) : FileSystem :=
  match v.entry? with
  | some e => fs.put (lo ++ v.target) e
  | none => fs

/-- What a visit does to the files. Nothing goes, and a file is read from its place in the output as
it has been put there. Where the output has no links, all is as it was except for what is laid
there. -/
structure Laid (dest : Path) (lo : Location) (v : Visit) (fs fs' : FileSystem) : Prop where
  lasts : fs.Lasts fs'
  read : ∀ contents x, v.entry? = some (.file contents x) →
    fs'.read (dest.descend v.target) = .ok contents
  directories : ∀ k, fs'.entryAt k = some .directory →
    fs.entryAt k = some .directory ∨ v.deed = .made ∧ k = lo ++ v.spot.names
  plainly : fs.Plain lo → fs' = v.lay lo fs ∧ Fills lo fs fs'

variable {dest : Path} {lo l : Location} {v : Visit} {fs : FileSystem} {contents : Bytes} {x y : Bool}

theorem Laid.of_writable (hfs : fs.Sound) (hentry : v.entry? = some (.file contents y))
    (hw : fs.writable (dest.descend v.target) = .ok l)
    (hplainly : fs.Plain lo → fs.put l (.file contents x) = v.lay lo fs ∧
      Fills lo fs (fs.put l (.file contents x))) :
    Laid dest lo v fs (fs.put l (.file contents x)) := by
  obtain ⟨hlasts, hdirectories⟩ := FileSystem.Lasts.put_writable hfs hw contents x
  refine ⟨hlasts, fun bytes z hbytes => ?_, fun k hk => .inl (hdirectories k hk), hplainly⟩
  cases hentry.symm.trans hbytes
  exact FileSystem.read_put_writable hfs hw contents x

theorem Laid.skipped {p : Spot} (hfs : fs.Sound) : Laid dest lo ⟨p, .skipped⟩ fs fs :=
  ⟨.refl hfs, nofun, fun _ => .inl, fun hplain => ⟨rfl, .refl hplain⟩⟩

def count (v : Visit) (s : TransformStats) : TransformStats :=
  match v.deed with
  | .made => { s with directories := s.directories + 1 }
  | .skipped => s
  | .copied .. => { s with filesCopied := s.filesCopied + 1 }
  | .rewritten k .. =>
    { s with
      filesTransformed := s.filesTransformed + 1
      functionsTransformed := s.functionsTransformed + k.bodies.length }

def bodies (v : Visit) : List String :=
  match v.deed with
  | .rewritten k .. => k.bodies
  | _ => []

end Visit

namespace Transformer

variable {σ : Type}

theorem append_names (l : Location) (p : Spot) : l ++ p.above ++ [p.name] = l ++ p.names :=
  List.append_assoc l p.above [p.name]

theorem child_descend (q : Path) (p : Spot) :
    (q.descend p.above).child p.name = q.descend p.names :=
  (Path.descend_concat q p.above p.name).symm

def DirPair.descend (d : DirPair) (r : List Name) : DirPair :=
  ⟨d.source.descend r, d.dest.descend r⟩

variable (t : Transformer σ) (d : DirPair) (li lo : Location) (s : TransformState σ) (p : Spot)

/-- At this moment the entry is a file, or a link to one, with these bytes. -/
structure Found (contents : Bytes) (x : Bool) : Prop where
  entry : ∃ e, s.files.entryAt (li ++ p.names) = some e ∧ e ≠ .directory
  file : ∃ l, s.files.find true (d.source.descend p.names) = .ok (l, .file contents x)

/-- What is to be done with an entry at this moment, and how the translator stands afterwards. -/
inductive Due (final : σ) : Deed → Prop
  | made (h : s.files.entryAt (li ++ p.names) = some .directory)
      (hfree : s.files.entryAt (lo ++ p.names) = none) (hquiet : final = s.translator) :
      Due final .made
  | skipped {e : Entry} (h : s.files.entryAt (li ++ p.names) = some e) (hdir : e ≠ .directory)
      (hfile : s.files.isFile (d.source.descend p.names) = false) (hquiet : final = s.translator) :
      Due final .skipped
  | copied {contents : Bytes} {x : Bool} (hfound : Found d li s p contents x)
      (hwhy : t.task? p.name contents = none ∨ isCapped t.maxCount s.stats = true)
      (hquiet : final = s.translator) : Due final (.copied contents x)
  | rewritten {contents : Bytes} {x kept : Bool} {k : Task} {answers : List String}
      (hfound : Found d li s p contents x) (htask : t.task? p.name contents = some k)
      (hroom : isCapped t.maxCount s.stats = false)
      (hasked : Asked t.translator s.translator k.bodies answers final)
      (hkept : s.files.executableAt (lo ++ (p.above ++ [k.target])) = kept) :
      Due final (.rewritten k answers kept)

structure Visited (v : Visit) (s' : TransformState σ) : Prop where
  run : ∃ below, (transformEntry t (d.descend v.spot.above) v.spot.name s).value = (.ok below, s')
  laid : Visit.Laid d.dest lo v s.files s'.files
  stats : s'.stats = v.count s.stats
  due : Due t d li lo s v.spot s'.translator v.deed

variable {t d li lo s p} in
theorem Due.there {final : σ} {deed : Deed} (h : Due t d li lo s p final deed) :
    s.files.entryAt (li ++ p.names) ≠ none := by
  have hsome : ∀ {e : Entry}, s.files.entryAt (li ++ p.names) = some e →
      s.files.entryAt (li ++ p.names) ≠ none := fun he hnone => nomatch he.symm.trans hnone
  cases h with
  | made hdir => exact hsome hdir
  | skipped he => exact hsome he
  | copied hfound =>
    obtain ⟨e, he, -⟩ := hfound.entry
    exact hsome he
  | rewritten hfound =>
    obtain ⟨e, he, -⟩ := hfound.entry
    exact hsome he

/-- Why a visit fails, what the translator has been asked for in it, and how it stands afterwards. -/
inductive Cause : Failure → List String → σ → Prop
  | interrupted (h : s.interrupt.isSet = true) : Cause .interrupted [] s.translator
  | refused {contents : Bytes} {x : Bool} {k : Task} {asked : List String} {cause : Failure}
      {text : String} {final : σ} (hfound : Found d li s p contents x)
      (htask : t.task? p.name contents = some k)
      (hrefused : Refused t.translator s.translator asked cause final) (hasked : asked <+: k.bodies) :
      Cause (.context text cause) asked final
  | unwritten {contents : Bytes} {x : Bool} {k : Task} {answers : List String} {text : String}
      {cause : SystemError} {final : σ} (hfound : Found d li s p contents x)
      (htask : t.task? p.name contents = some k)
      (hasked : Asked t.translator s.translator k.bodies answers final) :
      Cause (.ofSystem text cause) k.bodies final
  | system {text : String} {cause : SystemError} : Cause (.ofSystem text cause) [] s.translator

structure Stopped (e : Failure) (s' : TransformState σ) : Prop where
  run : (transformEntry t (d.descend p.above) p.name s).value = (.error e, s')
  files : s'.files = s.files
  stats : s'.stats = s.stats
  cause : ∃ asked, Cause t d li s p e asked s'.translator

theorem Task.moves_target {t : Transformer σ} {name : Name} {contents : Bytes} {k : Task}
    (h : t.task? name contents = some k) (hname : name.Moves) : k.target.Moves :=
  moves_sourceName k.model.lang k.role hname (task?_eq_some.mp h).1

theorem poll_cases {r : Except Failure Unit} {s s' : TransformState σ}
    (h : (TransformStep.poll s).value = (r, s')) :
    (∃ i, r = .ok () ∧ s' = { s with interrupt := i }) ∨
      s.interrupt.isSet = true ∧ r = .error .interrupted ∧ s' = s := by
  unfold TransformStep.poll Interrupt.poll at h
  unfold Interrupt.isSet
  cases hpolls : s.interrupt.clearPolls with
  | none =>
    rw [hpolls] at h
    cases h
    exact .inl ⟨_, rfl, rfl⟩
  | some n =>
    rw [hpolls] at h
    cases n with
    | zero =>
      cases h
      exact .inr ⟨rfl, rfl, rfl⟩
    | succ n =>
      cases h
      exact .inl ⟨_, rfl, rfl⟩

structure Paired (r : List Name) : Prop where
  sound : s.files.Sound
  source_nonempty : (d.source.descend r).isEmpty = false
  source_leads : s.files.Leads (d.source.descend r) (li ++ r)
  dest_nonempty : (d.dest.descend r).isEmpty = false
  dest_leads : s.files.Leads (d.dest.descend r) (lo ++ r)

section Visit

variable {t d li lo s p} {n : Name} {r : List Name} {s' : TransformState σ}
  (hpaired : Paired d li lo s p.above) (hname : p.name.Proper)

include hpaired hname

theorem copyFile_visit {contents : Bytes} {x : Bool} (i : Interrupt)
    (hfound : Found d li s p contents x)
    (hwhy : t.task? p.name contents = none ∨ isCapped t.maxCount s.stats = true)
    {res : Except Failure Unit}
    (h : (copyFile (d.source.descend p.names) (d.dest.descend p.names)
      { s with interrupt := i }).value = (res, s')) :
    (res = .ok () ∧ ∃ deed, Visit.Laid d.dest lo ⟨p, deed⟩ s.files s'.files ∧
        s'.stats = Visit.count ⟨p, deed⟩ s.stats ∧ Due t d li lo s p s'.translator deed) ∨
      ∃ e, res = .error e ∧ s'.files = s.files ∧ s'.stats = s.stats ∧
        ∃ asked, Cause t d li s p e asked s'.translator := by
  rw [← child_descend d.dest p] at h
  rcases copyFile_cases h with ⟨fs, hcopy, rfl, rfl⟩ | ⟨⟨text, cause, rfl⟩, rfl⟩
  · obtain ⟨k, contents', x', l, hfind, hw, rfl⟩ := FileSystem.copy_eq_ok hcopy
    obtain ⟨l', hfile⟩ := hfound.file
    cases hfile.symm.trans hfind
    rw [child_descend] at hw
    refine .inl ⟨rfl, .copied contents x, .of_writable hpaired.sound rfl hw fun hplain => ?_, rfl,
      .copied hfound hwhy rfl⟩
    obtain ⟨_, contents', x', hfind', hput, hfills⟩ := hplain.copy_eq_put
      (List.prefix_append lo p.above) hpaired.dest_leads hpaired.dest_nonempty hname.1 hcopy
    cases hfind.symm.trans hfind'
    rw [append_names] at hput
    exact ⟨hput, hfills⟩
  · exact .inr ⟨_, rfl, rfl, rfl, [], .system⟩

theorem transformFile_visit {contents : Bytes} {x : Bool} (i : Interrupt)
    (hfound : Found d li s p contents x) {res : Except Failure Unit}
    (h : (transformFile t (d.source.descend p.names) p.name (d.dest.descend p.above)
      { s with interrupt := i }).value = (res, s')) :
    (res = .ok () ∧ ∃ deed, Visit.Laid d.dest lo ⟨p, deed⟩ s.files s'.files ∧
        s'.stats = Visit.count ⟨p, deed⟩ s.stats ∧ Due t d li lo s p s'.translator deed) ∨
      ∃ e, res = .error e ∧ s'.files = s.files ∧ s'.stats = s.stats ∧
        ∃ asked, Cause t d li s p e asked s'.translator := by
  have hread : s.files.read (d.source.descend p.names) = .ok contents := by
    obtain ⟨l, hfile⟩ := hfound.file
    exact FileSystem.read_eq_ok.mpr ⟨l, x, hfile⟩
  by_cases hwhy : t.task? p.name contents = none ∨ isCapped t.maxCount s.stats = true
  · rw [transformFile_copying (s := { s with interrupt := i }) hread hwhy, child_descend] at h
    exact copyFile_visit hpaired hname i hfound hwhy h
  · rw [not_or, Bool.not_eq_true] at hwhy
    obtain ⟨k, htask⟩ := Option.ne_none_iff_exists'.mp hwhy.1
    have htarget := Task.moves_target htask hname.1
    rw [transformFile_rewriting (s := { s with interrupt := i }) hread htask hwhy.2] at h
    rcases writeUnits_cases h with ⟨rfl, answers, hasked, hwritten⟩ | ⟨hfiles, hstats, hfailed⟩
    · refine .inl ⟨rfl, .rewritten k answers _, ?_, hwritten.stats,
        .rewritten hfound htask hwhy.2 hasked rfl⟩
      obtain ⟨l, hw, hput⟩ := FileSystem.put_of_write hwritten.files
      rw [hput]
      rw [← Path.descend_concat] at hw
      refine .of_writable hpaired.sound rfl hw fun hplain => ?_
      obtain ⟨hlaid, hfills⟩ := hplain.write_eq_put (List.prefix_append lo p.above)
        hpaired.dest_leads hpaired.dest_nonempty htarget hwritten.files
      rw [List.append_assoc, hput] at hlaid
      exact ⟨hlaid, hput ▸ hfills⟩
    · refine .inr ?_
      rcases hfailed with ⟨asked, cause, text, rfl, hrefused, hasked⟩ |
        ⟨answers, text, cause, rfl, hasked⟩
      · exact ⟨_, rfl, hfiles, hstats, _, .refused hfound htask hrefused hasked⟩
      · exact ⟨_, rfl, hfiles, hstats, _, .unwritten hfound htask hasked⟩

theorem makeDirectory_visit {text : String} {res : Except Failure (Option DirPair)}
    (hdir : s.files.entryAt (li ++ p.names) = some .directory)
    (h : ((do
      TransformStep.change text fun fs => fs.createDirectory (d.dest.descend p.names)
      TransformStep.countWith fun s => { s with directories := s.directories + 1 }
      pure (some (d.descend p.names))) s).value = (res, s')) :
    (res = .ok (some (d.descend p.names)) ∧ Visit.Laid d.dest lo ⟨p, .made⟩ s.files s'.files ∧
        s'.stats = Visit.count ⟨p, .made⟩ s.stats ∧ Due t d li lo s p s'.translator .made ∧
        s.files.entryAt (lo ++ p.names) = none ∧
        s'.files.entryAt (lo ++ p.names) = some .directory) ∨
      ∃ e, res = .error e ∧ s'.files = s.files ∧ s'.stats = s.stats ∧
        ∃ asked, Cause t d li s p e asked s'.translator := by
  rcases Action.bind_cases h with ⟨e, hchange, rfl⟩ | ⟨_, s₁, hchange, hrest⟩
  · obtain ⟨cause, -, rfl, rfl⟩ := (change_eq_error s).mp hchange
    exact .inr ⟨_, rfl, rfl, rfl, [], .system⟩
  · obtain ⟨fs, hmade, rfl⟩ := (change_eq_ok s).mp hchange
    rw [← child_descend] at hmade
    have hmade' := hmade
    obtain ⟨-, hfree, rfl⟩ := FileSystem.createDirectory_eq_put hpaired.sound hpaired.dest_leads
      hpaired.dest_nonempty hname.1 hmade
    cases hrest
    have hlasts := FileSystem.Lasts.put (e := .directory) hpaired.sound
      (hpaired.sound.directory_of_leads hpaired.dest_leads) hname
      fun f hf => nomatch hfree.symm.trans hf
    have hlaid : Visit.Laid d.dest lo ⟨p, .made⟩ s.files
        (s.files.put (lo ++ p.above ++ [p.name]) .directory) := by
      refine ⟨hlasts, nofun, fun k hk => ?_, fun hplain => ?_⟩
      · rw [FileSystem.entryAt_put_cases (by simp), append_names] at hk
        split_ifs at hk with hsame
        · exact .inr ⟨rfl, hsame⟩
        · exact .inl hk
      · obtain ⟨-, -, -, hfills⟩ := hplain.createDirectory_put (List.prefix_append lo p.above)
          hpaired.dest_leads hpaired.dest_nonempty hname.1 hmade'
        refine ⟨?_, hfills⟩
        rw [append_names]
        rfl
    rw [append_names] at hfree hlaid ⊢
    exact .inl ⟨rfl, hlaid, rfl, .made hdir hfree rfl, hfree, FileSystem.entryAt_put _ (by simp) _⟩

theorem fileEntry_visit {e : Entry} {res : Except Failure (Option DirPair)}
    (hentry : s.files.entryAt (li ++ p.names) = some e) (hdir : e ≠ .directory)
    (h : ((if s.files.isFile (d.source.descend p.names) then do
        TransformStep.poll
        transformFile t (d.source.descend p.names) p.name (d.dest.descend p.above)
        pure none
      else pure none) s).value = (res, s')) :
    (res = .ok none ∧ ∃ deed, Visit.Laid d.dest lo ⟨p, deed⟩ s.files s'.files ∧
        s'.stats = Visit.count ⟨p, deed⟩ s.stats ∧ Due t d li lo s p s'.translator deed) ∨
      ∃ e, res = .error e ∧ s'.files = s.files ∧ s'.stats = s.stats ∧
        ∃ asked, Cause t d li s p e asked s'.translator := by
  split_ifs at h with hfile
  · obtain ⟨l, contents, x, hfind⟩ := FileSystem.isFile_iff.mp hfile
    have hfound : Found d li s p contents x := ⟨⟨e, hentry, hdir⟩, l, hfind⟩
    rcases Action.bind_cases h with ⟨e', hpoll, rfl⟩ | ⟨_, s₂, hpoll, h⟩
    · rcases poll_cases hpoll with ⟨i, hok, -⟩ | ⟨hset, he, rfl⟩
      · cases hok
      · cases he
        exact .inr ⟨_, rfl, rfl, rfl, [], .interrupted hset⟩
    · rcases poll_cases hpoll with ⟨i, -, rfl⟩ | ⟨-, he, -⟩
      · rcases Action.bind_cases h with ⟨e', hrest, rfl⟩ | ⟨_, s₃, hrest, hpure⟩
        · rcases transformFile_visit hpaired hname i hfound hrest with
            ⟨hok, -⟩ | ⟨e'', he, hfiles, hstats, hcause⟩
          · cases hok
          · cases he
            exact .inr ⟨_, rfl, hfiles, hstats, hcause⟩
        · cases hpure
          rcases transformFile_visit hpaired hname i hfound hrest with
            ⟨-, deed, hlaid, hstats, hdue⟩ | ⟨e'', he, -⟩
          · exact .inl ⟨rfl, deed, hlaid, hstats, hdue⟩
          · cases he
      · cases he
  · cases h
    rw [Bool.not_eq_true] at hfile
    exact .inl ⟨rfl, .skipped, .skipped hpaired.sound, rfl, .skipped hentry hdir hfile rfl⟩

omit hpaired hname in
theorem transformEntry_missing {cause : SystemError}
    (h : s.files.linkEntry (d.source.descend p.names) = .error cause) :
    ∃ text, (transformEntry t (d.descend p.above) p.name s).value =
      (.error (.ofSystem text cause), s) := by
  unfold transformEntry
  simp only [DirPair.descend, child_descend, value_bind_files, h]
  exact ⟨_, rfl⟩

omit hpaired hname in
theorem transformEntry_directory (h : s.files.linkEntry (d.source.descend p.names) = .ok .directory) :
    ∃ text, (transformEntry t (d.descend p.above) p.name s).value = ((do
      TransformStep.change text fun fs => fs.createDirectory (d.dest.descend p.names)
      TransformStep.countWith fun s => { s with directories := s.directories + 1 }
      pure (some (d.descend p.names))) s).value := by
  unfold transformEntry
  simp only [DirPair.descend, child_descend, value_bind_files]
  exact ⟨_, Action.value_bind_ofExcept (because_eq_ok.mpr h) _ _⟩

omit hpaired hname in
theorem transformEntry_other {e : Entry}
    (h : s.files.linkEntry (d.source.descend p.names) = .ok e) (hdir : e ≠ .directory) :
    (transformEntry t (d.descend p.above) p.name s).value =
      ((if s.files.isFile (d.source.descend p.names) then do
          TransformStep.poll
          transformFile t (d.source.descend p.names) p.name (d.dest.descend p.above)
          pure none
        else pure none) s).value := by
  have hshape : e.isDirectory = false := by
    cases e <;> first | rfl | exact absurd rfl hdir
  unfold transformEntry
  simp only [DirPair.descend, child_descend, value_bind_files]
  refine (Action.value_bind_ofExcept (because_eq_ok.mpr h) _ _).trans ?_
  rw [hshape, if_neg Bool.false_ne_true]
  split_ifs
  · rfl
  · exact value_say_bind _ _ _

theorem transformEntry_visit {res : Except Failure (Option DirPair)}
    (h : (transformEntry t (d.descend p.above) p.name s).value = (res, s')) :
    (∃ deed, Visited t d li lo s ⟨p, deed⟩ s' ∧
        if s.files.isDirectoryAt (li ++ p.names) then
          res = .ok (some (d.descend p.names)) ∧ Fits (d.source.descend p.names) ∧
            s.files.entryAt (lo ++ p.names) = none ∧
            s'.files.entryAt (lo ++ p.names) = some .directory
        else res = .ok none) ∨
      ∃ e, res = .error e ∧ Stopped t d li s p e s' := by
  have hrun := h
  cases hstat : s.files.linkEntry (d.source.descend p.names) with
  | error cause =>
    obtain ⟨text, hvalue⟩ := transformEntry_missing (t := t) hstat
    rw [hvalue] at h
    cases h
    exact .inr ⟨_, rfl, hrun, rfl, rfl, [], .system⟩
  | ok e =>
    have hfound := hstat
    rw [← child_descend] at hfound
    obtain ⟨hfits, hentry⟩ := FileSystem.linkEntry_child hpaired.source_leads
      hpaired.source_nonempty hname hfound
    rw [child_descend] at hfits
    rw [append_names] at hentry
    by_cases hdir : e = .directory
    · subst hdir
      obtain ⟨text, hvalue⟩ := transformEntry_directory (t := t) hstat
      rw [hvalue] at h
      rcases makeDirectory_visit hpaired hname hentry h with
        ⟨rfl, hlaid, hstats, hdue, hfree, hmade⟩ | ⟨e, rfl, hfiles, hstats, hcause⟩
      · refine .inl ⟨.made, ⟨⟨_, hrun⟩, hlaid, hstats, hdue⟩, ?_⟩
        rw [if_pos (FileSystem.isDirectoryAt_iff.mpr hentry)]
        exact ⟨rfl, hfits, hfree, hmade⟩
      · exact .inr ⟨e, rfl, hrun, hfiles, hstats, hcause⟩
    · have hnot : ¬ s.files.isDirectoryAt (li ++ p.names) = true := by
        rw [FileSystem.isDirectoryAt_iff]
        exact fun h => hdir (Option.some.inj (hentry.symm.trans h))
      rw [transformEntry_other hstat hdir] at h
      rcases fileEntry_visit hpaired hname hentry hdir h with
        ⟨rfl, deed, hlaid, hstats, hdue⟩ | ⟨e, rfl, hfiles, hstats, hcause⟩
      · refine .inl ⟨deed, ⟨⟨_, hrun⟩, hlaid, hstats, hdue⟩, ?_⟩
        rw [if_neg hnot]
      · exact .inr ⟨e, rfl, hrun, hfiles, hstats, hcause⟩

end Visit

end Transformer
end FunctionPairs
