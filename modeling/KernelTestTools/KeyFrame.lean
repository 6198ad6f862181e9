import KernelTestTools.LastWrite
import Mathlib.Data.List.ReduceOption

/-! DAT files as lists of entries. Set_Return rewrites whatever entry is last and never
compares keys, so the entry of a test carries the new value, with every other entry left
alone, only when the last entry is the test's own or needs no change. -/
namespace KernelTestTools.SetReturn
open TextFile DatFiles

def EntryFile (file : Option DatFile) : Prop :=
  file ≠ some .undecodable ∧ ∀ l ∈ entries file, Terminated l ∧ percent ∈ l

structure Framed (newValue k : Text) (before after : List Text) : Prop where
  present : ∃ l ∈ after, keyOf l = k
  carried : ∀ l ∈ after, keyOf l = k → l = entryLine k newValue
  others : after.filter (fun l => keyOf l ≠ k) = before.filter (fun l => keyOf l ≠ k)

def FramedRun (newValue : Text) (visits : List Visit) (dats final : Dats) : Prop :=
  ∀ visit ∈ visits, ∀ k, visit.key = some k →
    Framed newValue k (entries (dats visit.path)) (entries (final visit.path))

def requested (visits : List Visit) (path : Path) : List Text := (keysAt visits path).reduceOption

def LastEntryServes (newValue : Text) (keys : List Text) (k : Text) (before : List Text) : Prop :=
  match before.getLast? with
  | none => keys.head? = some k
  | some last => (∀ l ∈ before.dropLast, keyOf l = k → l = entryLine k newValue) ∧
    (keyOf last = k ∨ (lstrip (keyOf last) = keyOf last ∧ last = entryLine (keyOf last) newValue ∧
      ∃ l ∈ before.dropLast, keyOf l = k))

def LastEntriesServe (newValue : Text) (visits : List Visit) (dats : Dats) : Prop :=
  ∀ visit ∈ visits, ∀ k, visit.key = some k → Plain newValue ∧ Plain k ∧ percent ∉ k ∧
    LastEntryServes newValue (requested visits visit.path) k (entries (dats visit.path))

theorem lineBreakFree {content k v : Text}
    (mem : entryLine k v ∈ lines (universalNewlines content)) : Plain k ∧ Plain v := by
  have noReturn := lineNoReturn mem
  have shape : entryLine k v = (k ++ [percent] ++ v) ++ ['\n'] := by simp [entryLine]
  have breakFree : '\n' ∉ k ++ [percent] ++ v := by
    rcases lineListMember (linesShape (universalNewlines content)) mem with line | ⟨whole,_⟩
    · obtain ⟨body,whole,same⟩ := line
      rw [shape] at same
      rwa [List.append_inj_left' same rfl]
    · exact absurd (by simp [shape]) whole
  rw [shape] at noReturn
  simp only [List.mem_append,not_or] at noReturn breakFree
  exact ⟨⟨breakFree.1.1,noReturn.1.1.1⟩,⟨breakFree.2,noReturn.1.2⟩⟩

theorem framedPlain {newValue k : Text} {before : List Text} {file : Option DatFile}
    (framed : Framed newValue k before (entries file)) : Plain newValue ∧ Plain k ∧ percent ∉ k := by
  obtain ⟨l,mem,key⟩ := framed.present
  have same := framed.carried l mem key
  rw [same] at mem
  cases file with
  | none => simp [entries] at mem
  | some dat =>
    cases dat with
    | undecodable => simp [entries] at mem
    | text content =>
      obtain ⟨plain,value⟩ := lineBreakFree mem
      exact ⟨value,plain,key ▸ percentFreeKey l⟩

theorem updatesFresh {file : Option DatFile} (fresh : file = none ∨ file = some (.text []))
    {newValue k : Text} {keys : List (Option Text)} (value : Plain newValue)
    (safe : ∀ k, some k ∈ keys → SafeKey k) (first : keys.reduceOption.head? = some k) :
    updates newValue keys file = some (.text (entryLine k newValue)) := by
  induction keys with
  | nil => cases first
  | cons key keys ih =>
    rw [updates,List.foldl_cons,updateFresh fresh]
    cases key with
    | none =>
      rw [List.reduceOption_cons_of_none] at first
      exact ih (fun k mem => safe k (List.mem_cons_of_mem _ mem)) first
    | some head =>
      rw [List.reduceOption_cons_of_some] at first
      have same : head = k := Option.some.inj first
      obtain ⟨marked,plain,trimmed⟩ := safe k (by simp [same])
      have settled : Settled [] k := ⟨by simp,marked,plain,trimmed⟩
      rw [same]
      exact updatesSettled settled value keys

theorem updatesEntries {file : Option DatFile} {newValue last : Text} {init : List Text}
    {keys : List (Option Text)} (file' : EntryFile file) (split : entries file = init ++ [last])
    (some' : keys ≠ []) (value : Plain newValue) :
    entries (updates newValue keys file) = init ++ [entryLine (lstrip (keyOf last)) newValue] := by
  cases file with
  | none => simp [entries] at split
  | some dat =>
    cases dat with
    | undecodable => simp [entries] at split
    | text content =>
      obtain ⟨_,ordered⟩ := file'
      rw [split] at ordered
      obtain ⟨r,shape⟩ := splitKey (ordered last (by simp)).2
      have cut := split
      rw [entries,shape] at cut
      have settled := settledSplit cut (percentFreeKey last)
      obtain ⟨key,rest,rfl⟩ := List.exists_cons_of_ne_nil some'
      rw [updates,List.foldl_cons,updatePercent cut (percentFreeKey last)]
      have same := updatesSettled settled value rest
      rw [updates] at same
      rw [same]
      exact settledLines settled value

theorem framedLast {newValue k last : Text} {init : List Text} (trimmed : lstrip k = k) :
    Framed newValue k (init ++ [last]) (init ++ [entryLine (lstrip (keyOf last)) newValue]) ↔
      (∀ l ∈ init, keyOf l = k → l = entryLine k newValue) ∧
      (keyOf last = k ∨ (lstrip (keyOf last) = keyOf last ∧
        last = entryLine (keyOf last) newValue ∧ ∃ l ∈ init, keyOf l = k)) := by
  have free : percent ∉ lstrip (keyOf last) := fun mem => percentFreeKey last (lstripSubset mem)
  have written : keyOf (entryLine (lstrip (keyOf last)) newValue) = lstrip (keyOf last) :=
    keyOfLine free
  constructor
  · intro framed
    refine ⟨fun l mem => framed.carried l (List.mem_append_left _ mem),?_⟩
    by_cases own : keyOf last = k
    · exact .inl own
    right
    have others := framed.others
    rw [List.filter_append,List.filter_append] at others
    have tail := List.append_cancel_left others
    have kept : [last].filter (fun l => keyOf l ≠ k) = [last] := by simp [own]
    have same : entryLine (lstrip (keyOf last)) newValue = last := by
      rw [kept] at tail
      have mem : last ∈ [entryLine (lstrip (keyOf last)) newValue] :=
        (List.mem_filter.mp (tail ▸ List.mem_singleton_self last)).1
      exact (List.mem_singleton.mp mem).symm
    have key : lstrip (keyOf last) = keyOf last := by rw [← written,same]
    refine ⟨key,by rw [key] at same; exact same.symm,?_⟩
    obtain ⟨l,mem,named⟩ := framed.present
    rcases List.mem_append.mp mem with early | late
    · exact ⟨l,early,named⟩
    · rw [List.mem_singleton.mp late,same] at named
      contradiction
  · intro fits
    rcases fits with ⟨early,own | ⟨key,same,l,mem,named⟩⟩
    · have mine : keyOf (entryLine (lstrip (keyOf last)) newValue) = k := by rw [written,own,trimmed]
      refine ⟨⟨_,by simp,mine⟩,?_,?_⟩
      · intro l mem named
        rcases List.mem_append.mp mem with h | h
        · exact early l h named
        · rw [List.mem_singleton.mp h,own,trimmed]
      · generalize entryLine (lstrip (keyOf last)) newValue = changed at mine
        simp [List.filter_append,mine,own]
    · rw [key,← same]
      refine ⟨⟨l,by simp [mem],named⟩,?_,rfl⟩
      intro x inside name
      rcases List.mem_append.mp inside with h | h
      · exact early x h name
      · rw [List.mem_singleton.mp h] at name ⊢
        rw [← name]
        exact same

theorem framedFresh {newValue k first : Text} (free : percent ∉ first) :
    Framed newValue k [] [entryLine first newValue] ↔ first = k := by
  have written : keyOf (entryLine first newValue) = first := keyOfLine free
  constructor
  · intro framed
    obtain ⟨l,mem,named⟩ := framed.present
    rw [List.mem_singleton.mp mem,written] at named
    exact named
  · rintro rfl
    refine ⟨⟨_,List.mem_singleton_self _,written⟩,?_,?_⟩
    · intro l mem _
      exact List.mem_singleton.mp mem
    · simp [written]

theorem entriesNil {file : Option DatFile} (file' : EntryFile file) (empty : entries file = []) :
    file = none ∨ file = some (.text []) := by
  cases file with
  | none => exact .inl rfl
  | some dat =>
    cases dat with
    | undecodable => exact absurd rfl file'.1
    | text content =>
      right
      by_contra other
      have nonempty : content ≠ [] := fun same => other (by rw [same])
      obtain ⟨init,last,split⟩ := lineOrSplit nonempty
      rw [entries,split] at empty
      simp at empty

theorem requestedMember {visits : List Visit} {path : Path} {k : Text} :
    k ∈ requested visits path ↔ ∃ v ∈ visits, v.path = path ∧ v.key = some k := by
  rw [requested,List.reduceOption_mem_iff]
  constructor
  · exact keyOfVisit
  · intro own
    obtain ⟨v,mem,here,key⟩ := own
    exact List.mem_map.mpr ⟨v,List.mem_filter.mpr ⟨mem,by simpa using here⟩,key⟩

theorem framedFile {newValue k : Text} {keys : List (Option Text)} {file : Option DatFile}
    (file' : EntryFile file) (value : Plain newValue) (safe : ∀ k, some k ∈ keys → SafeKey k)
    (mem : some k ∈ keys) :
    Framed newValue k (entries file) (entries (updates newValue keys file)) ↔
      LastEntryServes newValue keys.reduceOption k (entries file) := by
  rcases List.eq_nil_or_concat (entries file) with empty | ⟨init,last,split⟩
  · have asked : k ∈ keys.reduceOption := List.reduceOption_mem_iff.mpr mem
    obtain ⟨first,rest,shape⟩ := List.exists_cons_of_ne_nil (List.ne_nil_of_mem asked)
    have head : keys.reduceOption.head? = some first := by rw [shape]; rfl
    have member : some first ∈ keys := List.reduceOption_mem_iff.mp (by simp [shape])
    obtain ⟨marked,plain,trimmed⟩ := safe first member
    have settled : Settled [] first := ⟨by simp,marked,plain,trimmed⟩
    have written : entries (some (.text (entryLine first newValue))) = [entryLine first newValue] :=
      settledLines settled value
    rw [updatesFresh (entriesNil file' empty) value safe head,empty,written,framedFresh marked,
      LastEntryServes,head]
    simp
  · rw [List.concat_eq_append] at split
    rw [updatesEntries file' split (List.ne_nil_of_mem mem) value,split,
      framedLast (safe k mem).trimmed,LastEntryServes]
    simp

theorem keysTrimmed {functionName : Text} {envs : List Environment} {fuel : Nat}
    {visits : List Visit} (run : runVisits functionName fuel envs = some visits) :
    ∀ v ∈ visits, ∀ k, v.key = some k → lstrip k = k := by
  refine runVisitsAll (fun env mem globalId param x v visit k key => ?_) run
  obtain ⟨id,_,rfl⟩ := Option.map_eq_some_iff.mp visit
  obtain ⟨unitSub,found,rfl⟩ := Option.map_eq_some_iff.mp key
  exact entryKeyTrimmed globalId unitSub

theorem framedRun {newValue : Text} {visits : List Visit} {dats : Dats}
    (files : ∀ path, EntryFile (dats path))
    (trimmed : ∀ v ∈ visits, ∀ k, v.key = some k → lstrip k = k) :
    FramedRun newValue visits dats (visits.foldl (applyVisit newValue) dats) ↔
      LastEntriesServe newValue visits dats := by
  have each (visit : Visit) (mem : visit ∈ visits) (k : Text) (key : visit.key = some k)
      (value : Plain newValue)
      (clean : ∀ v ∈ visits, ∀ k, v.key = some k → Plain k ∧ percent ∉ k) :
      Framed newValue k (entries (dats visit.path))
          (entries (visits.foldl (applyVisit newValue) dats visit.path)) ↔
        LastEntryServes newValue (requested visits visit.path) k (entries (dats visit.path)) := by
    have safe : ∀ k, some k ∈ keysAt visits visit.path → SafeKey k := by
      intro k asked
      obtain ⟨v,listed,_,named⟩ := keyOfVisit asked
      obtain ⟨plain,marked⟩ := clean v listed k named
      exact ⟨marked,plain,trimmed v listed k named⟩
    have asked : some k ∈ keysAt visits visit.path :=
      List.reduceOption_mem_iff.mp (requestedMember.mpr ⟨visit,mem,rfl,key⟩)
    rw [foldAt]
    exact framedFile (files visit.path) value safe asked
  constructor
  · intro framed visit mem k key
    have clean : ∀ v ∈ visits, ∀ k, v.key = some k → Plain k ∧ percent ∉ k :=
      fun v listed k named => (framedPlain (framed v listed k named)).2
    obtain ⟨value,plain,marked⟩ := framedPlain (framed visit mem k key)
    exact ⟨value,plain,marked,(each visit mem k key value clean).mp (framed visit mem k key)⟩
  · intro serves visit mem k key
    have clean : ∀ v ∈ visits, ∀ k, v.key = some k → Plain k ∧ percent ∉ k := by
      intro v listed k named
      obtain ⟨_,plain,marked,_⟩ := serves v listed k named
      exact ⟨plain,marked⟩
    obtain ⟨value,_,_,last⟩ := serves visit mem k key
    exact (each visit mem k key value clean).mpr last

theorem keyValueFrame {functionName newValue : Text} {envs : List Environment} {dats : Dats}
    (files : ∀ path, EntryFile (dats path)) :
    ∃ enough, ∀ fuel, enough ≤ fuel → ∃ visits final,
      runVisits functionName fuel envs = some visits ∧
      setReturn functionName newValue fuel envs dats = some final ∧
      (FramedRun newValue visits dats final ↔ LastEntriesServe newValue visits dats) := by
  obtain ⟨enough,visits,known⟩ := runVisitsEnough functionName envs
  refine ⟨enough,fun fuel h => ⟨visits,visits.foldl (applyVisit newValue) dats,known fuel h,?_,
    framedRun files (keysTrimmed (known fuel h))⟩⟩
  rw [setReturnVisits,known fuel h]
  rfl

def samplePath : Path := ("HAL1".toList,"1".toList)

def onlyDat (content : Text) : Dats := fun path => if path = samplePath then some (.text content) else none

def ownLast : Text := "0.9.9.9%3\n0.1.2.7%5\n".toList
def ownFirst : Text := "0.1.2.7%5\n0.9.9.9%3\n".toList

theorem onlyDatEntries {content : Text}
    (all : ∀ l ∈ lines (universalNewlines content), Terminated l ∧ percent ∈ l) (path : Path) :
    EntryFile (onlyDat content path) := by
  by_cases here : path = samplePath
  · rw [onlyDat,if_pos here]
    exact ⟨by simp,all⟩
  · rw [onlyDat,if_neg here]
    exact ⟨by simp,by simp [entries]⟩

theorem sampleEntryLines : ∀ content ∈ [ownLast,ownFirst],
    ∀ l ∈ lines (universalNewlines content), Terminated l ∧ percent ∈ l := by
  have terminated : ∀ l : Text, (l.getLast? = some '\n' ∧ '\n' ∉ l.dropLast) → Terminated l := by
    intro l ⟨final,whole⟩
    exact ⟨l.dropLast,whole,(List.dropLast_append_getLast? _ final).symm⟩
  intro content mem l inside
  have shape : (l.getLast? = some '\n' ∧ '\n' ∉ l.dropLast) ∧ percent ∈ l := by
    revert l
    revert content
    decide
  exact ⟨terminated l shape.1,shape.2⟩

theorem sampleKeyValueFrame : ∃ enough, ∀ fuel, enough ≤ fuel → ∃ visits final,
    runVisits sampleFunction fuel [sampleEnvironment] = some visits ∧
    setReturn sampleFunction "1".toList fuel [sampleEnvironment] (onlyDat ownLast) = some final ∧
    (FramedRun "1".toList visits (onlyDat ownLast) final ↔
      LastEntriesServe "1".toList visits (onlyDat ownLast)) :=
  keyValueFrame (onlyDatEntries (sampleEntryLines ownLast (by simp)))

/- The first test's own entry comes first, so another parameter's expected value is lost. -/
theorem otherParameterOverwritten : (∀ path, EntryFile (onlyDat ownFirst path)) ∧
    ∃ visits final, runVisits sampleFunction 3 [sampleEnvironment] = some visits ∧
      setReturn sampleFunction "1".toList 3 [sampleEnvironment] (onlyDat ownFirst) = some final ∧
      final samplePath = some (.text "0.1.2.7%5\n0.9.9.9%1\n".toList) ∧
      ¬ FramedRun "1".toList visits (onlyDat ownFirst) final := by
  have visited : runVisits sampleFunction 3 [sampleEnvironment] =
      some [⟨samplePath,some "0.1.2.7".toList⟩,⟨("HAL1".toList,"2".toList),some "0.1.2.7".toList⟩] := by
    decide
  have changed : ([⟨samplePath,some "0.1.2.7".toList⟩,
      ⟨("HAL1".toList,"2".toList),some "0.1.2.7".toList⟩] : List Visit).foldl
        (applyVisit "1".toList) (onlyDat ownFirst) samplePath =
      some (.text "0.1.2.7%5\n0.9.9.9%1\n".toList) := by
    decide
  refine ⟨onlyDatEntries (sampleEntryLines ownFirst (by simp)),_,_,visited,?_,changed,fun framed => ?_⟩
  · rw [setReturnVisits,visited]
    rfl
  · have others := (framed _ List.mem_cons_self _ rfl).others
    rw [changed] at others
    revert others
    decide

end KernelTestTools.SetReturn
