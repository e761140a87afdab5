import RouteMigration.Text.LowerCase

set_option autoImplicit false

namespace RouteMigration

inductive SkipReason where
  | alreadyUpdated
  | noFetchCalls
  | authRoute
  | publicRoute
  | emailRoute
  | webhookRoute
  | subscriptionRoute
  | noPatternMatched
  deriving DecidableEq

namespace SkipReason

def all : List SkipReason :=
  [.alreadyUpdated, .noFetchCalls, .authRoute, .publicRoute, .emailRoute, .webhookRoute,
    .subscriptionRoute, .noPatternMatched]

def describe : SkipReason → Text
  | .alreadyUpdated => "Already updated".toList
  | .noFetchCalls => "No fetch calls".toList
  | .authRoute => "Auth route (public)".toList
  | .publicRoute => "Public route".toList
  | .emailRoute => "Email route (public)".toList
  | .webhookRoute => "Webhook route".toList
  | .subscriptionRoute => "Subscription/payment route".toList
  | .noPatternMatched => "No pattern matched".toList

def keyword : SkipReason → Text
  | .alreadyUpdated => "already_updated".toList
  | .noFetchCalls => "no_fetch_calls".toList
  | .authRoute => "auth_route".toList
  | .publicRoute => "public_route".toList
  | .emailRoute => "email_route".toList
  | .webhookRoute => "webhook_route".toList
  | .subscriptionRoute => "subscription_route".toList
  | .noPatternMatched => "no_pattern_matched".toList

def ofKeyword? (word : Text) : Option SkipReason :=
  all.find? fun reason => reason.keyword == word

theorem ofKeyword?_keyword (reason : SkipReason) : ofKeyword? reason.keyword = some reason := by
  cases reason <;> decide

end SkipReason

namespace Route

def helperMarker : Text :=
  "buildBFFHeaders".toList

def fetchMarker : Text :=
  "fetch(".toList

def pathExclusion? (path : Text) : Option SkipReason :=
  if Text.holds "/auth/".toList path then some .authRoute
  else if Text.holds "/public/".toList path then some .publicRoute
  else if Text.holds "/email/".toList path then some .emailRoute
  -- Payment callbacks from outside carry no tenant.
  else if Text.holds "webhook".toList (Text.lowerLatin path) then some .webhookRoute
  else if Text.holds "/subscription/".toList path || Text.holds "/payment/initiate".toList path then
    some .subscriptionRoute
  else none

def exclusion? (path content : Text) : Option SkipReason :=
  if Text.holds helperMarker content then some .alreadyUpdated
  else if !Text.holds fetchMarker content then some .noFetchCalls
  else pathExclusion? path

end Route

end RouteMigration
