import LoginRegistry.Migration.Batch
import LoginRegistry.Migration.Redrive
import LoginRegistry.Testbed.Basic
import LoginRegistry.Testbed.Polling
import LoginRegistry.Testbed.Settings
import LoginRegistry.Proofs.Script.Mishaps
import LoginRegistry.Proofs.SortedMap
import LoginRegistry.Proofs.Store.Tables
import LoginRegistry.Proofs.Payload.Gate
import LoginRegistry.Proofs.Text.Decimal
import LoginRegistry.Proofs.Registry.Contents
import LoginRegistry.Proofs.Registry.Leads
import LoginRegistry.Proofs.Registry.Requests
import LoginRegistry.Proofs.Registry.Runs
import LoginRegistry.Proofs.Registry.Directory
import LoginRegistry.Proofs.Registry.Refinement
import LoginRegistry.Proofs.Registry.Operations
import LoginRegistry.Proofs.Registry.Listing
import LoginRegistry.Proofs.Registry.Draining
import LoginRegistry.Proofs.Migration.Sweeping
import LoginRegistry.Proofs.Registry.Backing
import LoginRegistry.Proofs.Migration.Healing
import LoginRegistry.Proofs.Migration.Recording
import LoginRegistry.Proofs.Registry.Stepwise
import LoginRegistry.Proofs.Migration.Stranding
import LoginRegistry.Proofs.Migration.Clashing
import LoginRegistry.Proofs.Migration.Bindings
import LoginRegistry.Proofs.Migration.Finishing
import LoginRegistry.Proofs.Registry.Retrying
import LoginRegistry.Proofs.Registry.Contending
import LoginRegistry.Proofs.Migration.Catching
import LoginRegistry.Proofs.Migration.Commuting
import LoginRegistry.Proofs.Migration.Failing
import LoginRegistry.Proofs.Migration.Accounting
import LoginRegistry.Proofs.Migration.Batching
import LoginRegistry.Proofs.Migration.Rerunning
import LoginRegistry.Proofs.Migration.Surviving
import LoginRegistry.Proofs.Migration.Versioning
import LoginRegistry.Proofs.Migration.Reporting
import LoginRegistry.Proofs.Registry.Guarding
import LoginRegistry.Proofs.Migration.Membership
import LoginRegistry.Proofs.Migration.Sequencing
import LoginRegistry.Proofs.Migration.Unrelated
import LoginRegistry.Proofs.Migration.Blocking
import LoginRegistry.Proofs.Registry.Conserving
import LoginRegistry.Proofs.Registry.Counting
import LoginRegistry.Proofs.Registry.Emptying
import LoginRegistry.Proofs.Registry.Collecting
import LoginRegistry.Proofs.Account.Devices
import LoginRegistry.Proofs.Config.Reading
import LoginRegistry.Proofs.Testbed.Calls
import LoginRegistry.Proofs.Testbed.Polling
