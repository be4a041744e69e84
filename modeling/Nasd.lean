import Nasd.Lib.Run
import Nasd.System
import Nasd.Raid.Manager
import Nasd.Raid.Edits
import Nasd.Raid.Stop
import Nasd.Raid.Wipe
import Nasd.Raid.Conf
import Nasd.Server.Machine
import Nasd.Server.Access
import Nasd.Server.Revocation
import Nasd.Ws.Hub
import Nasd.Installer.Scrub
import Nasd.Installer.Protection
import Nasd.Lib.Json
import Nasd.Shares.Apply
import Nasd.Shares.Table
import Nasd.Lib.Pool
import Nasd.Shares.Requests
import Nasd.Shares.Frontend
import Nasd.Shares.Access
import Nasd.Shares.Exports
import Nasd.Shares.Preview
import Nasd.Filepath
import Nasd.Shares.Accepted
import Nasd.Script
import Nasd.Shares.Regenerate
import Nasd.Shares.Handlers
import Nasd.Shares.History
import Nasd.Dlna.Manager
import Nasd.Dlna.Failures
import Nasd.Shares.Include
import Nasd.Shares.RoundTrip
import Nasd.Shares.ExportsFile
import Nasd.Raid.Filesystem
import Nasd.Raid.Fstab
import Nasd.Raid.MountTable
import Nasd.Raid.Mounts
import Nasd.Filemgr
import Nasd.Qbt.Configure
import Nasd.Qbt.Confined
import Nasd.Config.Migrate
import Nasd.Lib.Chan
import Nasd.Server.Admins
import Nasd.Server.Expiry
import Nasd.Users.Passwords
import Nasd.Ws.Channels
import Nasd.Config.Yaml
import Nasd.Lib.Url
import Nasd.Qbt.Requests
import Nasd.Raid.Client
import Nasd.Lib.Prog
import Nasd.Qbt.Gating
import Nasd.Qbt.Interleavings
import Nasd.Shares.Legacy
import Nasd.Lib.Ini
import Nasd.Lib.Mangle
import Nasd.Qbt.Conf
import Nasd.Qbt.Distinct
import Nasd.Raid.Members
import Nasd.Raid.MountPoint
import Nasd.Raid.Refusal
import Nasd.Raid.Removal
import Nasd.Shares.Modes
import Nasd.Shares.Rejected
import Nasd.Ws.Client
import Nasd.Dlna.ReadBack
import Nasd.Filemgr.Resolve
import Nasd.Qbt.Canon
import Nasd.Shares.Grant
import Nasd.System.Journal
import Nasd.Users.Stdin
import Nasd.Dlna.Listing
import Nasd.Filemgr.Upload
import Nasd.Raid.View
import Nasd.Shares.Reload
import Nasd.Filemgr.Folder
import Nasd.Filemgr.History
import Nasd.Filemgr.View
import Nasd.Lib.Query
import Nasd.Qbt.Picked
import Nasd.Raid.Disks
import Nasd.Raid.Page
import Nasd.Server.Answers
import Nasd.Server.InStep
import Nasd.Server.Queries
import Nasd.Raid.Live
import Nasd.Filemgr.FolderPicker
import Nasd.Shares.Pages
