/-!
# Sample services

The documents of the services that the shell is delivered with, and the file of the module of sets,
whose functions are builtin: only its presence counts.
-/

namespace Parley.Samples

/-- The service `google`. -/
def google : String :=
  "---
protocol: https
host: gmail.googleapis.com
description: Google Workspace API(s)
authentication:
  type: bearer
call:
  - name: deleteFilter
    description: Delete a mailbox filter.
    params:
      mboxId: string
      filterId: string
    path: /gmail/v1/users/$mboxId$/settings/filters/$filterId$
    method: DELETE

  - name: filters
    description: Get mailbox filters.
    params:
      mboxId: string
    path: /gmail/v1/users/$mboxId$/settings/filters/
    method: GET

  - name: mail
    description: Get messages.
    params:
      mboxId: string
    path: /gmail/v1/users/$mboxId$/messages/
    method: GET

  - name: getUsers
    path: /admin/directory/v1/users?customer=my_customer&viewType=admin_view&maxResults=250
    method: GET

"

/-- The service `msgraph`. -/
def msgraph : String :=
  "---
protocol: https
host: graph.microsoft.com
description: Microsoft Graph API
authentication:
  type: bearer
call:
  - name: filters
    params:
      mboxId: string
    path: /v1.0/users/$mboxId$/MailFolders/inbox/messagerules
    method: GET
    response:
      type: json
      transform: |
        response.value

  - name: folders
    params:
      mboxId: string
      folder: string
    path: /v1.0/users/$mboxId$/MailFolders/$folder$/childFolders?$$top=500&$$count=true
    method: GET
    response:
      type: json

  - name: deleteFolder
    params:
      mboxId: string
      folderId: string
    path: /v1.0/users/$mboxId$/mailFolders/$folderId$
    method: DELETE

  - name: users
    path: /v1.0/users?$$top=999
    method: GET
    response:
      type: json
      transform: |
        response.value

  - name: searchGroups
    path: /v1.0/groups/?$$search(mail+eq+'$mboxId$')
    params:
      mboxId: string
    method: GET
    response:
      type: json
      transform: |
        response.value

  - name: groupMembers
    path: /v1.0/groups/$id$/members
    params:
      id: string
    method: GET
    response:
      type: json
      transform: |
        response.value

  - name: emails
    params:
      mboxId: string
    path: /v1.0/users/$mboxId$/messages
    method: GET
    response:
      type: json

  - name: get
    params:
      mboxId: string
      msgId: string
    path: /v1.0/users/$mboxId$/messages/$msgId$
    method: GET
    response:
      type: json


"

/-- The service `outlook`. -/
def outlook : String :=
  "---
protocol: https
host: outlook.office.com
description: Outlook REST API
authentication:
  type: bearer
call:
  - name: getMessage
    params:
      mboxId: string
      msgId: string
    path: /api/v2.0/users/$mboxId$/messages/$msgId$
    method: GET
    response:
      type: json

  - name: getMessages
    params:
      mboxId: string
    path: /api/v2.0/users/$mboxId$/messages/
    method: GET
    response:
      type: json
      transform: |
        response.value
"

/-- The files by name. -/
def all : List (String × String) :=
  [ ("google.yaml", google), ("msgraph.yaml", msgraph), ("outlook.yaml", outlook), ("set.py", "") ]

end Parley.Samples
