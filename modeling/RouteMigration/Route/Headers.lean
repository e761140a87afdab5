import RouteMigration.Shape.Replacement

set_option autoImplicit false

namespace RouteMigration

namespace Route

def extractionMarker : Text :=
  "// Headers now built with buildBFFHeaders() including subdomain".toList

def helperCall : Text :=
  "headers: await buildBFFHeaders()".toList

def cookieExtraction : Shape :=
  [.literal "const cookieHeader = request.headers.get(".toList, .quoteMark,
    .literal "cookie".toList, .quoteMark, .literal ")".toList, .statementEnd]

def contentTypeField : Shape :=
  [.quoteMark, .literal "Content-Type".toList, .quoteMark, .literal ": ".toList,
    .quoteMark, .literal "application/json".toList, .quoteMark]

def cookieField : Shape :=
  [.literal ",".toList, .blanks, .literal "Cookie:".toList, .blanks,
    .literal "cookieHeader".toList]

def headersOpening : Shape :=
  [.literal "headers:".toList, .blanks, .literal "\x7b".toList, .blanks]

def headersClosing : Shape :=
  [.blanks, .literal "\x7d".toList]

def cookieHeaders : Shape :=
  headersOpening ++ contentTypeField ++ [.blanks] ++ cookieField ++ headersClosing

def jsonHeaders : Shape :=
  headersOpening ++ contentTypeField ++ headersClosing

def stripCookieExtraction (content : Text) : Text :=
  cookieExtraction.replaceAll extractionMarker content

def replaceCookieHeaders (content : Text) : Text :=
  cookieHeaders.replaceAll helperCall content

def replaceJsonHeaders (content : Text) : Text :=
  jsonHeaders.replaceAll helperCall content

def stripCookieFields (content : Text) : Text :=
  cookieField.replaceAll [] content

end Route

end RouteMigration
