import MyselfServer.PathName
import MyselfServer.Router

/-!
# Static files stay under the root

`isPathSafe` looks for two dots anywhere in the path. What `serveStaticFile`
passes to the file system is the root with the path behind it, up to its first
NUL, and it stays below the root.
-/

namespace Myself

open Text PathName

/-- The two file systems cannot be told apart by this name. -/
structure Disk.AgreeAt (disk disk' : Disk) (name : Bytes) : Prop where
  stat : disk.stat name = disk'.stat name
  openFile : disk.openFile name = disk'.openFile name
  ifstream : disk.ifstream name = disk'.ifstream name

namespace Router

def staticPath (request : HttpRequest) : Bytes :=
  if request.path = [SLASH] then bytes "/index.html" else request.path

def staticName (r : Router) (request : HttpRequest) : Bytes :=
  cStr (r.wwwRoot ++ staticPath request)

theorem serveStaticFile_congr (r : Router) {disk disk' : Disk} {path : Bytes}
    (h : disk.AgreeAt disk' (cStr (r.wwwRoot ++ path))) (request : HttpRequest) :
    r.serveStaticFile disk path request = r.serveStaticFile disk' path request := by
  simp only [serveStaticFile, serveFileBody, readBody, h.stat, h.openFile, h.ifstream]

/-- A request looks at the file system by one name alone. -/
theorem handle_congr (r : Router) {disk disk' : Disk} {request : HttpRequest}
    (h : disk.AgreeAt disk' (r.staticName request)) (clientIp : Bytes) :
    r.handle disk request clientIp = r.handle disk' request clientIp := by
  have hserve := r.serveStaticFile_congr h request
  unfold staticPath at hserve
  simp only [handle, hserve]

theorem isPathSafe_iff {path : Bytes} :
    isPathSafe path = true ↔ ∃ rest, path = SLASH :: rest ∧ ¬ UP <:+: path := by
  have hup : search (bytes "..") path = none ↔ ¬ UP <:+: path := search_eq_none_iff (by decide)
  simp only [isPathSafe, Bool.and_eq_true, decide_eq_true_eq, Option.isNone_iff_eq_none, hup]
  cases path with
  | nil => simp
  | cons c rest => simp

theorem staticPath_safe {request : HttpRequest} (h : isPathSafe request.path = true) :
    isPathSafe (staticPath request) = true := by
  unfold staticPath
  split
  · decide
  · exact h

theorem cStr_append {a b : Bytes} (h : 0 ∉ a) : cStr (a ++ b) = a ++ cStr b := by
  apply List.takeWhile_append_of_pos
  intro c hc
  simp only [ne_eq, decide_not, Bool.not_eq_eq_eq_not, Bool.not_true, decide_eq_false_iff_not]
  rintro rfl
  exact h hc

theorem cStr_within (s : Bytes) : cStr s <+: s := List.takeWhile_prefix _

/-- **Static paths stay under the root**: the file system is asked for the
name of one file, which leads through the root and never out of it. -/
theorem static_paths_below (r : Router) (hroot : 0 ∉ r.wwwRoot) {request : HttpRequest}
    (hsafe : isPathSafe request.path = true) :
    StaysBelow r.wwwRoot (r.staticName request) ∧
      ∀ disk disk' clientIp, disk.AgreeAt disk' (r.staticName request) →
        r.handle disk request clientIp = r.handle disk' request clientIp := by
  refine ⟨?_, fun disk disk' clientIp h => r.handle_congr h clientIp⟩
  obtain ⟨rest, hpath, hup⟩ := isPathSafe_iff.mp (staticPath_safe hsafe)
  have hname : r.staticName request = r.wwwRoot ++ SEP :: cStr rest := by
    rw [staticName, cStr_append hroot, hpath]
    rfl
  rw [hname]
  apply staysBelow_append
  intro hin
  refine hup (hin.trans ?_)
  rw [hpath]
  exact (cStr_within rest).isInfix.trans (List.suffix_cons _ _).isInfix

def cutRequest : HttpRequest := { path := bytes "/a/./b" ++ 0 :: bytes "/c" }

theorem static_paths_below_cut :
    ({ } : Router).staticName cutRequest = bytes "www/a/./b" ∧
      StaysBelow ({ } : Router).wwwRoot (({ } : Router).staticName cutRequest) ∧
      ∀ disk disk' clientIp, disk.AgreeAt disk' (({ } : Router).staticName cutRequest) →
        ({ } : Router).handle disk cutRequest clientIp = ({ } : Router).handle disk' cutRequest clientIp := by
  have hsafe : isPathSafe cutRequest.path = true := by decide +kernel
  exact ⟨by decide +kernel, static_paths_below { } (by decide +kernel) hsafe⟩

end Router

end Myself
