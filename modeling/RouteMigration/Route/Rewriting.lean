import RouteMigration.Route.Headers
import RouteMigration.Route.HelperImport

set_option autoImplicit false

namespace RouteMigration

namespace Route

def rewritten (content : Text) : Text :=
  stripCookieFields (replaceJsonHeaders (replaceCookieHeaders
    (stripCookieExtraction (injectImport content))))

def rewrite? (content : Text) : Option Text :=
  if rewritten content = content then none else some (rewritten content)

theorem rewrite?_eq_some_iff (content result : Text) :
    rewrite? content = some result ↔ rewritten content = result ∧ result ≠ content := by
  simp only [rewrite?, Option.ite_none_left_eq_some, Option.some.injEq]
  constructor
  · rintro ⟨changed, rfl⟩
    exact ⟨rfl, changed⟩
  · rintro ⟨rfl, changed⟩
    exact ⟨changed, rfl⟩

def helperImportMissing (content : Text) : Bool :=
  Text.holds helperCall content && !Text.holds helperImportSource content

end Route

end RouteMigration
